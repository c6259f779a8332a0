import CallTargets.Report.Summary

/-!
# Metrics

The statistics as lines of a metric name and a value, in the order of the names.
-/
namespace CallTargets

/-- A gauge: a whole number without a point, any other with the fewest digits. -/
def gaugeText (x : Float) : String :=
  match Binary.ofBits? x.toBits with
  | some b =>
    let d := b.shortest
    if d.digits.isEmpty then "0"
    else if d.digits.length ≤ d.point then d.text ⟨-4, 400, 2⟩
    else d.text plainNumber
  | none => shortestText plainNumber x

def Stats.metrics (s : Stats) : List (String × String) :=
  let count (n : UInt64) : String := toString n.toNat
  [("icallgraph_address_taken_functions", count s.addressTaken),
   ("icallgraph_analysis_phases_total", count s.phases),
   ("icallgraph_average_indirect_call_targets", gaugeText s.averageTargets),
   ("icallgraph_first_layer_calls_total", count s.firstLayerCalls),
   ("icallgraph_first_layer_targets_total", count s.firstLayerTargets),
   ("icallgraph_indirect_call_targets_total", count s.callTargets),
   ("icallgraph_indirect_calls_total", count s.indirectCalls),
   ("icallgraph_indirect_calls_with_targets_total", count s.callsWithTargets),
   ("icallgraph_second_layer_calls_total", count s.secondLayerCalls),
   ("icallgraph_second_layer_targets_total", count s.secondLayerTargets)]

def Stats.metricsText (s : Stats) : String :=
  String.join (s.metrics.map fun (name, value) => name ++ " " ++ value ++ "\n")

end CallTargets
