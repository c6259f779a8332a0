import CallTargets.ByteString

/-!
# Driving a pass to a fixpoint

A pass works on one module at a time and says whether it changed anything. A run has three stages.
Preparation and finish visit all modules in rounds until a round changes nothing; between them,
phases visit every module once each, until a phase changes no module or the cap is reached.
Whether the run was cancelled is looked up before every visit, so a visit is never interrupted.
-/
namespace CallTargets

/-- A pass over modules of type `μ` with state `σ`; only its middle step can fail. -/
structure ModulePass (σ μ ε : Type) where
  prepare : μ → σ → Bool × σ
  analyze : μ → σ → Except ε Bool × σ
  finish : μ → σ → Bool × σ

/-- A pass, the names of its modules, a cap on the phases, and when the run is cancelled. -/
structure Driver (σ μ ε : Type) where
  pass : ModulePass σ μ ε
  path : μ → ByteString
  maxPhases : Int
  cancelled : σ → Bool

/-- The stages of a run; a number that names none is kept. -/
inductive Stage where
  | prepare
  | analyze
  | finish
  | done
  | other (number : Int)
deriving DecidableEq, Repr, Inhabited

def Stage.ofInt : Int → Stage
  | 0 => .prepare
  | 1 => .analyze
  | 2 => .finish
  | 3 => .done
  | n => .other n

def Stage.text : Stage → String
  | .prepare => "init"
  | .analyze => "analyze"
  | .finish => "finalize"
  | .done => "done"
  | .other n => "Stage(" ++ toString n ++ ")"

/-- Rounds and phases of a run, and how many modules each phase changed. -/
structure RunReport where
  initRounds : Nat
  phases : Nat
  changedPerPhase : List Nat
  finalRounds : Nat
deriving DecidableEq, Repr, Inhabited

def RunReport.empty : RunReport := ⟨0, 0, [], 0⟩

/-- One visit of a phase; phases and modules are counted from one. -/
structure Progress where
  phase : Nat
  index : Nat
  total : Nat
  module : ByteString
  changed : Bool
deriving DecidableEq, Repr, Inhabited

inductive RunError (ε : Type) where
  | cancelled
  | failed (phase : Nat) (module : ByteString) (cause : ε)
deriving DecidableEq, Repr, Inhabited

def RunError.message {ε : Type} (causeText : ε → String) : RunError ε → String
  | .cancelled => "context canceled"
  | .failed phase module cause =>
    "phase " ++ toString phase ++ ": module " ++ module.text ++ ": " ++ causeText cause

/-- What a run leaves: the state, the report, the visits of its phases, and an error if there was
one. -/
structure RunOutcome (σ ε : Type) where
  state : σ
  report : RunReport
  progress : List Progress
  error : Option (RunError ε)
deriving Repr, Inhabited

def maxSettleRounds : Nat := 64

namespace Driver

variable {σ μ ε : Type}

/-- One round over all modules: whether it changed anything, or nothing when it was cancelled. -/
def sweep (d : Driver σ μ ε) (step : μ → σ → Bool × σ) :
    List μ → Bool → σ → Option Bool × σ
  | [], changed, s => (some changed, s)
  | m :: ms, changed, s =>
    if d.cancelled s then (none, s)
    else
      let (new, s) := step m s
      d.sweep step ms (changed || new) s

/-- The rounds made, whether they were cancelled, and the state after them. -/
structure Settled (σ : Type) where
  rounds : Nat
  cancelled : Bool
  state : σ

/-- Rounds until one changes nothing, `left` more at most. -/
def settleFrom (d : Driver σ μ ε) (step : μ → σ → Bool × σ) (ms : List μ) :
    Nat → Nat → σ → Settled σ
  | 0, done, s => ⟨done, false, s⟩
  | left + 1, done, s =>
    match d.sweep step ms false s with
    | (none, s) => ⟨done + 1, true, s⟩
    | (some false, s) => ⟨done + 1, false, s⟩
    | (some true, s) => d.settleFrom step ms left (done + 1) s

def settle (d : Driver σ μ ε) (step : μ → σ → Bool × σ) (ms : List μ) (s : σ) : Settled σ :=
  d.settleFrom step ms maxSettleRounds 0 s

/-- How far a phase came: the modules it changed, its visits, and an error. -/
structure PhaseResult (σ ε : Type) where
  changed : Nat
  progress : List Progress
  error : Option (RunError ε)
  state : σ

def phaseFrom (d : Driver σ μ ε) (phase total : Nat) :
    List μ → Nat → Nat → List Progress → σ → PhaseResult σ ε
  | [], _, changed, seen, s => ⟨changed, seen.reverse, none, s⟩
  | m :: ms, index, changed, seen, s =>
    if d.cancelled s then ⟨changed, seen.reverse, some .cancelled, s⟩
    else
      match d.pass.analyze m s with
      | (.error e, s) => ⟨changed, seen.reverse, some (.failed phase (d.path m) e), s⟩
      | (.ok new, s) =>
        d.phaseFrom phase total ms (index + 1) (if new then changed + 1 else changed)
          (⟨phase, index + 1, total, d.path m, new⟩ :: seen) s

/-- Phases until one changes no module, `left` more at most. -/
def phasesFrom (d : Driver σ μ ε) (ms : List μ) : Nat → RunOutcome σ ε → RunOutcome σ ε
  | 0, out => out
  | left + 1, out =>
    let r := d.phaseFrom (out.report.phases + 1) ms.length ms 0 0 [] out.state
    let progress := out.progress ++ r.progress
    match r.error with
    | some e => { out with state := r.state, progress := progress, error := some e }
    | none =>
      let report := { out.report with
        phases := out.report.phases + 1
        changedPerPhase := out.report.changedPerPhase ++ [r.changed] }
      let out := { out with state := r.state, progress := progress, report := report }
      if r.changed = 0 then out else d.phasesFrom ms left out

def run (d : Driver σ μ ε) (ms : List μ) (s : σ) : RunOutcome σ ε :=
  let first := d.settle d.pass.prepare ms s
  let report := { RunReport.empty with initRounds := first.rounds }
  if first.cancelled then ⟨first.state, report, [], some .cancelled⟩
  else
    let out := d.phasesFrom ms (max d.maxPhases 1).toNat ⟨first.state, report, [], none⟩
    match out.error with
    | some _ => out
    | none =>
      let last := d.settle d.pass.finish ms out.state
      { out with
        state := last.state
        report := { out.report with finalRounds := last.rounds }
        error := if last.cancelled then some .cancelled else none }

end Driver
end CallTargets
