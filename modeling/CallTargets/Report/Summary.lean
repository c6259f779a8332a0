import CallTargets.Analysis
import CallTargets.Decimal.Binary
import CallTargets.Loading

/-!
# What is reported

The result of a run as the reports show it, and how they write its one number that is not whole.
-/
namespace CallTargets

/-- The rounds and phases of a run. How many modules each phase changed is missing where no phase
was counted. -/
structure RunCounts where
  initRounds : Int
  phases : Int
  changedPerPhase : Option (List Int)
  finalRounds : Int
deriving DecidableEq, Repr, Inhabited

/-- The counts of a run; a run without a phase has no list of phases. -/
def RunReport.counts (r : RunReport) : RunCounts :=
  ⟨r.initRounds, r.phases,
    if r.changedPerPhase.isEmpty then none else some (r.changedPerPhase.map Int.ofNat),
    r.finalRounds⟩

/-- How many struct shapes have names, and how often a shape without one was given one. -/
structure TypeCounts where
  namedShapes : Int
  names : Int
  resolved : Int
  unresolvable : Int
deriving DecidableEq, Repr, Inhabited

def StructNames.Stats.counts (s : StructNames.Stats) : TypeCounts :=
  ⟨s.namedShapes, s.names, s.resolved, s.unresolvable⟩

/-- A call in a report. It may be one whose targets were never listed, which differs from a call
without targets. -/
structure ReportedCall where
  result : CallResult
  listed : Bool
deriving DecidableEq, Repr, Inhabited

/-- The parts of a result that reports show. -/
structure Summary where
  stats : Stats
  averageTargets : Float
  run : RunCounts
  types : TypeCounts
  calls : List ReportedCall
deriving Inhabited

def Summary.empty : Summary := ⟨.zero, 0, RunReport.empty.counts, ⟨0, 0, 0, 0⟩, []⟩

def AnalysisResult.summary (r : AnalysisResult) : Summary :=
  ⟨r.stats, r.stats.averageTargets, r.report.counts, r.types.counts, r.calls.map (⟨·, true⟩)⟩

/-- A floating-point number with the fewest digits that read back. -/
def shortestText (style : NumberStyle) (x : Float) : String :=
  match Binary.ofBits? x.toBits with
  | some b => b.shortest.text style
  | none => if x.isNaN then "NaN" else if x < 0 then "-Inf" else "+Inf"

/-- A floating-point number rounded to a number of digits. -/
def roundedText (digits : Nat) (style : NumberStyle) (x : Float) : String :=
  match Binary.ofBits? x.toBits with
  | some b => (b.rounded digits).text style
  | none => if x.isNaN then "NaN" else if x < 0 then "-Inf" else "+Inf"

/-- Numbers in messages and metrics have an exponent below `1e-4` and from `1e6` on. -/
def plainNumber : NumberStyle := ⟨-4, 6, 2⟩

/-- Numbers in JSON have an exponent below `1e-6` and from `1e21` on. -/
def jsonNumber : NumberStyle := ⟨-6, 21, 1⟩

/-- The average in the text report has five digits, and an exponent below `1e-4` and from `1e5`
on. -/
def averageNumber : NumberStyle := ⟨-4, 5, 2⟩

def averageDigits : Nat := 5

end CallTargets
