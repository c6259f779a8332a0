import CallTargets.Report.Summary

/-!
# The text report

The statistics under a headline and, if asked for, every call with its targets. On a terminal some
words are coloured.
-/
namespace CallTargets

structure Palette where
  tag : String → String
  source : String → String
  header : String → String

private def between (before after s : String) : String :=
  "\x1b[" ++ before ++ "m" ++ s ++ "\x1b[" ++ after ++ "m"

/-- Words as they are, or the tag in blue, source lines in magenta and the headline in bold. -/
def Palette.ofColored (colored : Bool) : Palette :=
  if colored then ⟨between "34" "0", between "35" "0", between "1" "22"⟩ else ⟨id, id, id⟩

private def place (l : Location) : String :=
  l.file.text ++ " +" ++ toString l.line

/-- A call with its position, its function and its targets. -/
def CallResult.text (p : Palette) (c : CallResult) : String :=
  let position := if c.location.isUnknown then "??"
    else place c.location ++ (if c.source.isEmpty then "" else " " ++ p.source c.source)
  let target (name : ByteString) : String :=
    match c.definitions.get? name with
    | some l => "    -> " ++ name.text ++ " " ++ place l ++ "\n"
    | none => "    -> " ++ name.text ++ "\n"
  " [" ++ p.tag "icall" ++ "] " ++ position ++ "\n" ++
    "  " ++ c.caller.text ++ " (" ++ c.module.text ++ ") " ++ c.layer.text ++ "\n" ++
    String.join (c.callees.map target)

def Summary.text (s : Summary) (dump colored : Bool) : String :=
  let p := Palette.ofColored colored
  let count (n : UInt64) : String := toString n.toNat ++ "\n"
  (if dump then String.join (s.calls.map fun c => c.result.text p) else "") ++
    "\n@@ Total number of final callees: " ++ count s.stats.callTargets ++
    p.header "############## Result Statistics ##############" ++ "\n" ++
    "# Ave. Number of indirect-call targets: \t" ++
      roundedText averageDigits averageNumber s.averageTargets ++ "\n" ++
    "# Number of indirect calls: \t\t\t" ++ count s.stats.indirectCalls ++
    "# Number of indirect calls with targets: \t" ++ count s.stats.callsWithTargets ++
    "# Number of indirect-call targets: \t\t" ++ count s.stats.callTargets ++
    "# Number of address-taken functions: \t\t" ++ count s.stats.addressTaken ++
    "# Number of second layer calls: \t\t" ++ count s.stats.secondLayerCalls ++
    "# Number of second layer targets: \t\t" ++ count s.stats.secondLayerTargets ++
    "# Number of first layer calls: \t\t\t" ++ count s.stats.firstLayerCalls ++
    "# Number of first layer targets: \t\t" ++ count s.stats.firstLayerTargets

end CallTargets
