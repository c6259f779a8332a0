import CallTargets.Report.JsonText
import CallTargets.Report.Summary

/-!
# The JSON report
-/
namespace CallTargets

def programVersion : String := "dev"

namespace JsonValue

private def int (n : Int) : JsonValue := .number (toString n)

private def word (n : UInt64) : JsonValue := int n.toNat

private def name (b : ByteString) : JsonValue := .string b.text

/-- A member that is left out when its text is empty. -/
private def optionalText (key s : String) : List (String × JsonValue) :=
  if s.isEmpty then [] else [(key, .string s)]

def ofLocation (l : Location) : JsonValue :=
  .object [("file", name l.file), ("line", int l.line)]

/-- The positions of targets, in the order of their names. -/
private def ofDefinitions (ds : Assoc ByteString Location) : List (String × JsonValue) :=
  if ds.isEmpty then []
  else [("definitions",
    .object ((sortBy (fun a b => a.1.before b.1) ds).map fun (k, l) => (k.text, ofLocation l)))]

def ofCall (call : ReportedCall) : JsonValue :=
  let c := call.result
  .object ([("caller", name c.caller), ("module", name c.module),
    ("location", ofLocation c.location)] ++ optionalText "path" c.path.text ++
    optionalText "source" c.source ++
    [("layer", .string c.layer.text),
     ("callees", if call.listed then .array (c.callees.map name) else .null)] ++
    ofDefinitions c.definitions)

/-- The statistics under their names, the average last. -/
def statistics (s : Stats) : List (String × UInt64) :=
  [("indirect_calls", s.indirectCalls),
   ("indirect_calls_with_targets", s.callsWithTargets),
   ("indirect_call_targets", s.callTargets),
   ("address_taken_functions", s.addressTaken),
   ("first_layer_calls", s.firstLayerCalls),
   ("first_layer_targets", s.firstLayerTargets),
   ("second_layer_calls", s.secondLayerCalls),
   ("second_layer_targets", s.secondLayerTargets),
   ("phases", s.phases)]

def ofStats (s : Stats) (average : Float) : JsonValue :=
  .object ((statistics s).map (fun (k, n) => (k, word n)) ++
    [("average_targets", .number (shortestText jsonNumber average))])

def ofRun (r : RunCounts) : JsonValue :=
  .object [("init_rounds", int r.initRounds), ("phases", int r.phases),
    ("changed_per_phase", match r.changedPerPhase with
      | some counts => .array (counts.map int)
      | none => .null),
    ("final_rounds", int r.finalRounds)]

def ofTypes (t : TypeCounts) : JsonValue :=
  .object [("named_shapes", int t.namedShapes), ("names", int t.names),
    ("anonymous_resolved", int t.resolved), ("anonymous_unresolvable", int t.unresolvable)]

end JsonValue

/-- The JSON report of a run. Files that were not loaded are given by path and message. -/
def Summary.jsonText (s : Summary) (dump : Bool) (loadErrors : List (String × String))
    (timestamp : String) : String :=
  let calls := if dump && !s.calls.isEmpty then
      [("call_sites", JsonValue.array (s.calls.map .ofCall))]
    else []
  let errors := if loadErrors.isEmpty then []
    else [("load_errors", JsonValue.array (loadErrors.map fun (path, message) =>
      .object [("path", .string path), ("error", .string message)]))]
  (JsonValue.object (calls ++
    [("stats", .ofStats s.stats s.averageTargets), ("report", .ofRun s.run),
     ("types", .ofTypes s.types)] ++ errors ++
    [("version", .string programVersion), ("timestamp", .string timestamp)])).text ++ "\n"

end CallTargets
