import CallTargets.Analysis.CallSite

/-!
# Statistics of a run
-/
namespace CallTargets

/-- Counts over the final call records, and the number of phases that ran. -/
structure Stats where
  indirectCalls : UInt64
  callsWithTargets : UInt64
  callTargets : UInt64
  addressTaken : UInt64
  firstLayerCalls : UInt64
  firstLayerTargets : UInt64
  secondLayerCalls : UInt64
  secondLayerTargets : UInt64
  phases : UInt64
deriving DecidableEq, Repr, Inhabited

namespace Stats

def zero : Stats := ⟨0, 0, 0, 0, 0, 0, 0, 0, 0⟩

def addCall (s : Stats) (cs : CallSite) : Stats :=
  let n := cs.callees.length.toUInt64
  let s := { s with
    callsWithTargets := if 0 < n then s.callsWithTargets + 1 else s.callsWithTargets
    callTargets := s.callTargets + n }
  match cs.layer with
  | .field => { s with
      secondLayerCalls := s.secondLayerCalls + 1
      secondLayerTargets := s.secondLayerTargets + n }
  | .signature => { s with
      firstLayerCalls := s.firstLayerCalls + 1
      firstLayerTargets := s.firstLayerTargets + n }
  | .unmatched => s

/-- Counts anew from the call records; the number of phases stays. -/
def record (s : Stats) (calls : List CallSite) (addressTaken : Nat) : Stats :=
  calls.foldl addCall { zero with
    indirectCalls := calls.length.toUInt64
    addressTaken := addressTaken.toUInt64
    phases := s.phases }

/-- Sets the number of phases, which is never negative. -/
def setPhases (s : Stats) (n : Int) : Stats :=
  { s with phases := n.toNat.toUInt64 }

/-- Targets per indirect call; zero as long as no call has a target. -/
def averageTargets (s : Stats) : Float :=
  if s.callsWithTargets = 0 ∨ s.indirectCalls = 0 then 0
  else s.callTargets.toFloat / s.indirectCalls.toFloat

end Stats
end CallTargets
