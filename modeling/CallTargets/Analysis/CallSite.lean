import CallTargets.Analysis.FuncInfo

/-!
# Indirect calls

An indirect call with the signature it invokes, where its callee was loaded from, and the targets
found for it so far.
-/
namespace CallTargets

/-- A call of the program: its module, function, block and position in the block. -/
structure CallId where
  module : Nat
  func : Nat
  block : Nat
  inst : Nat
deriving DecidableEq, Repr, Inhabited

/-- Which refinement produced the targets of a call. -/
inductive Layer where
  | unmatched
  | signature
  | field
deriving DecidableEq, Repr, Inhabited

namespace Layer

/-- The layer with a number; numbers without a layer stand for no match. -/
def ofInt : Int → Layer
  | 1 => .signature
  | 2 => .field
  | _ => .unmatched

def text : Layer → String
  | .unmatched => "none"
  | .signature => "signature"
  | .field => "field"

end Layer

/-- The struct field that a callee pointer was loaded from. -/
structure Provenance where
  owner : Signature
  field : Int64
deriving DecidableEq, Repr, Inhabited

def Provenance.disc (p : Provenance) : Signature := Signature.layered p.owner p.field

structure CallSite where
  id : CallId
  caller : Option FuncId
  /-- The path of the module the call is in. -/
  module : ByteString
  sig : Signature
  provenance : Option Provenance
  layer : Layer
  callees : List Target
deriving DecidableEq, Repr, Inhabited

/-- The list of targets that stands for a set of them: sorted, without neighbours alike. -/
def Target.normalize (ts : List Target) : List Target :=
  dropRepeats (sortBy Target.before ts)

/-- Replaces the targets and says whether they differ from those before. -/
def CallSite.setCallees (cs : CallSite) (ts : List Target) : Bool × CallSite :=
  let next := Target.normalize ts
  (next != cs.callees, { cs with callees := next })

end CallTargets
