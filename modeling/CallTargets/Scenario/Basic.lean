import CallTargets.Document.Decode
import CallTargets.Document.Reader
import CallTargets.Files

/-!
# Scenarios

A scenario is a directory of modules and a file that says what an analysis of them should find,
under one or several configurations.
-/
namespace CallTargets

open Document

/-- The calls expected of a function, and their targets. -/
structure ExpectedCall where
  caller : String
  module : String
  layer : String
  callees : List String
deriving DecidableEq, Repr, Inhabited

/-- The settings of one analysis and what is expected of it. Settings that are not given have
their usual values. -/
structure Configuration where
  name : String
  byField : Option Bool
  byModule : Option Bool
  phases : Int
  calls : List ExpectedCall
  stats : List (String × Float)
  loadErrors : List String
  errors : List String
deriving Inhabited

structure Scenario where
  description : String
  /-- The modules to load; without any, all modules of the directory are. -/
  modules : List String
  configurations : List Configuration
deriving Inhabited

namespace Scenario

inductive LoadError where
  | unreadable (e : PathError)
  | malformed (e : ReadError)
  | unfit (problems : List Problem)
deriving DecidableEq, Repr, Inhabited

private def texts : Decoder (List String) := decodeList "list of texts" decodeText

def decodeCall : Decoder ExpectedCall :=
  decodeRecord "call" ⟨"", "", "", []⟩ fun
    | "caller" => some (setField decodeText fun s c => { c with caller := s })
    | "module" => some (setField decodeText fun s c => { c with module := s })
    | "layer" => some (setField decodeText fun s c => { c with layer := s })
    | "callees" => some (setField texts fun l c => { c with callees := l })
    | _ => none

/-- Decodes the expected statistics; a null counts as zero. -/
def decodeStats : Decoder (List (String × Float)) :=
  decodeEntries "map of numbers" [] fun key node stats =>
    let d := decodeFloat node
    ⟨some (stats ++ [(key, d.value.getD 0)]), d.problems⟩

def decodeConfiguration : Decoder Configuration :=
  decodeRecord "configuration" ⟨"", none, none, 0, [], [], [], []⟩ fun
    | "name" => some (setField decodeText fun s c => { c with name := s })
    | "mlta" => some (setField decodeBool fun b c => { c with byField := some b })
    | "typm" => some (setField decodeBool fun b c => { c with byModule := some b })
    | "phases" => some (setField decodeInt fun n c => { c with phases := n })
    | "expected_calls" =>
      some (setField (decodeList "list of calls" decodeCall) fun l c => { c with calls := l })
    | "expected_stats" => some (setField decodeStats fun l c => { c with stats := l })
    | "expected_load_errors" => some (setField texts fun l c => { c with loadErrors := l })
    | "expected_errors" => some (setField texts fun l c => { c with errors := l })
    | _ => none

def decode : Decoder Scenario :=
  decodeRecord "scenario" ⟨"", [], []⟩ fun
    | "description" => some (setField decodeText fun s c => { c with description := s })
    | "modules" => some (setField texts fun l c => { c with modules := l })
    | "configurations" =>
      some (setField (decodeList "list of configurations" decodeConfiguration)
        fun l c => { c with configurations := l })
    | _ => none

def fileName : String := "expected.yaml"

def load (fs : Files) (dir : ByteString) : Except LoadError Scenario :=
  match fs.read (Path.join dir fileName) with
  | .error e => .error (.unreadable e)
  | .ok bytes =>
    match Document.read bytes with
    | .error e => .error (.malformed e)
    | .ok none => .ok ⟨"", [], []⟩
    | .ok (some node) =>
      match decode node with
      | ⟨s, []⟩ => .ok (s.getD ⟨"", [], []⟩)
      | ⟨_, problems⟩ => .error (.unfit problems)

end Scenario
end CallTargets
