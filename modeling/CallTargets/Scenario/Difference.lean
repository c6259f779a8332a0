import CallTargets.Report.Json
import CallTargets.Report.Summary
import CallTargets.Scenario.Basic
import CallTargets.Text.Blank

/-!
# Differences from what is expected

Calls are compared by function: where a function makes several calls, each must be as expected.
Lists of names are compared as sorted lists.
-/
namespace CallTargets

/-- What is wrong with an expected call, given by its position. -/
inductive CallError where
  | unnamed (index : Nat)
  | unknownLayer (index : Nat) (layer : String)
deriving DecidableEq, Repr, Inhabited

def CallError.message : CallError → String
  | .unnamed index =>
    "expected call at index " ++ toString index ++ " needs both 'caller' and 'module'"
  | .unknownLayer index layer =>
    "expected call at index " ++ toString index ++ " has unknown layer " ++ Text.literal layer

/-- A way in which an analysis differs from its expectation. -/
inductive Difference where
  | loadErrors (want got : List ByteString)
  | noError (want : List String)
  | invalid (e : CallError)
  | missing (key : ByteString)
  | unexpected (key : ByteString)
  | layer (key : ByteString) (want got : String)
  | callees (key : ByteString) (want got : List ByteString)
  | unknownStatistic (name : String)
  | statistic (name : String) (want got : Float)
deriving Inhabited

/-- Names that only one side has, one in a line. -/
def diffText (want got : List ByteString) : String :=
  String.join ((want.filter fun s => !got.contains s).map fun s => "\n  - " ++ s.text) ++
    String.join ((got.filter fun s => !want.contains s).map fun s => "\n  + " ++ s.text)

def Difference.message : Difference → String
  | .loadErrors want got => "load errors mismatch (-want +got):" ++ diffText want got
  | .noError want => "expected errors " ++ Text.literals want ++ ", analysis succeeded"
  | .invalid e => "Invalid expected.yaml: " ++ e.message
  | .missing key => "Indirect call not found: " ++ key.text
  | .unexpected key => "Unexpected indirect call: " ++ key.text
  | .layer key want got =>
    "Layer mismatch for " ++ key.text ++ ": expected " ++ want ++ ", got " ++ got
  | .callees key want got =>
    "Callees mismatch for " ++ key.text ++ " (-want +got):" ++ diffText want got
  | .unknownStatistic name => "Unknown statistic: " ++ name
  | .statistic name want got =>
    "Statistic " ++ name ++ ": expected " ++ shortestText plainNumber want ++ ", got " ++
      shortestText plainNumber got

def sortedNames (l : List ByteString) : List ByteString :=
  sortBy ByteString.before l

/-- The first expected call, counted from `index`, that is not complete. -/
def firstCallError (index : Nat) : List ExpectedCall → Option CallError
  | [] => none
  | c :: rest =>
    if (Text.trim c.caller).isEmpty || (Text.trim c.module).isEmpty then some (.unnamed index)
    else if c.layer ≠ Layer.signature.text ∧ c.layer ≠ Layer.field.text then
      some (.unknownLayer index c.layer)
    else firstCallError (index + 1) rest

def callKey (module caller : ByteString) : ByteString := module ++ ":" ++ caller

def ExpectedCall.key (c : ExpectedCall) : ByteString := callKey c.module c.caller

def CallResult.key (c : CallResult) : ByteString := callKey c.module c.caller

def ExpectedCall.differences (want : ExpectedCall) (got : CallResult) : List Difference :=
  let wanted := sortedNames (want.callees.map ByteString.ofText)
  let found := sortedNames got.callees
  (if want.layer = got.layer.text then [] else [.layer want.key want.layer got.layer.text]) ++
    (if wanted = found then [] else [.callees want.key wanted found])

/-- How calls differ from those expected. Of several expectations for a function the last
counts. -/
def callDifferences (expected : List ExpectedCall) (found : List CallResult) : List Difference :=
  match firstCallError 0 expected with
  | some e => [.invalid e]
  | none =>
    let wanted : Assoc ByteString ExpectedCall := expected.foldl (fun m c => m.put c.key c) []
    let keys := sortedNames wanted.keys
    let foundKeys := dropRepeats (sortedNames (found.map CallResult.key))
    let missing := keys.filter fun k => !foundKeys.contains k
    let unexpected := foundKeys.filter fun k => !keys.contains k
    missing.map .missing ++ unexpected.map .unexpected ++
      keys.flatMap fun k => match wanted.get? k with
        | some want => (found.filter fun c => c.key == k).flatMap want.differences
        | none => []

def Summary.statistic? (s : Summary) (name : String) : Option Float :=
  if name = "average_targets" then some s.averageTargets
  else ((JsonValue.statistics s.stats).find? fun p => p.1 == name).map fun p => p.2.toFloat

def statisticTolerance : Float := 1e-6

def statDifferences (expected : List (String × Float)) (s : Summary) : List Difference :=
  (sortBy (fun a b => decide (a.1 < b.1)) expected).filterMap fun (name, want) =>
    match s.statistic? name with
    | none => some (.unknownStatistic name)
    | some got =>
      if statisticTolerance < (got - want).abs then some (.statistic name want got) else none

end CallTargets
