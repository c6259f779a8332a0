import CallTargets.Analysis
import CallTargets.Loading
import CallTargets.Scenario.Difference

/-!
# Running scenarios

Every configuration of a scenario is analyzed and compared with its expectations. Modules are
named by their paths below the directory of the scenario.
-/
namespace CallTargets

structure ConfigurationOutcome where
  name : String
  success : Bool
  message : String
  differences : List Difference
  /-- The analysis gave results. -/
  analyzed : Bool
deriving Inhabited

structure ScenarioOutcome where
  configurations : List ConfigurationOutcome
deriving Inhabited

inductive ScenarioError where
  | noConfigurations
  | loading (e : LoadingError)
  | analysis (e : AnalysisError)
deriving DecidableEq, Repr, Inhabited

def Configuration.config (c : Configuration) : Config :=
  let d := Config.standard
  ⟨c.byField.getD d.byField, c.byModule.getD d.byModule,
    if 0 < c.phases then c.phases else d.maxPhases⟩

namespace Scenario

def moduleEnding : ByteString := ".ll"

def moduleNames (s : Scenario) (fs : Files) (dir : List ByteString) : List ByteString :=
  if s.modules.isEmpty then
    sortedNames ((fs.filesIn dir).filter fun name => moduleEnding.bytes.isSuffixOf name.bytes)
  else s.modules.map ByteString.ofText

def loadModules (s : Scenario) (fs : Files) (dir : List ByteString) :
    Except LoadingError Loaded :=
  let shown (path : ByteString) : ByteString :=
    Path.ofRoute (Path.relative dir (Path.route path))
  let paths := (s.moduleNames fs dir).map fun name =>
    Path.ofRoute (Path.route (Path.join (Path.ofRoute dir) name))
  (CallTargets.loadModules fs paths "" false).map fun loaded =>
    ⟨loaded.modules.map fun m => { m with path := shown m.path },
     loaded.errors.map fun e => { e with path := shown e.path }⟩

def occursIn (needle : List Char) : List Char → Bool
  | [] => needle.isEmpty
  | c :: text => needle.isPrefixOf (c :: text) || occursIn needle text

/-- The outcome of an analysis that gave results. -/
def Configuration.compare (c : Configuration) (before : List Difference) (r : Summary) :
    ConfigurationOutcome :=
  let differences := before ++ (if c.errors.isEmpty then [] else [.noError c.errors]) ++
    callDifferences c.calls (r.calls.map ReportedCall.result) ++ statDifferences c.stats r
  let message := if differences.isEmpty then
      "All " ++ toString c.calls.length ++ " expected calls matched"
    else "Test failed with " ++ toString differences.length ++ " differences"
  ⟨c.name, differences.isEmpty, message, differences, true⟩

/-- Analyzes the modules of a scenario under a configuration. -/
def runConfiguration (s : Scenario) (fs : Files) (dir : List ByteString) (c : Configuration) :
    Except ScenarioError ConfigurationOutcome :=
  match s.loadModules fs dir with
  | .error e => .error (.loading e)
  | .ok loaded =>
    let want := sortedNames (c.loadErrors.map ByteString.ofText)
    let got := sortedNames (loaded.errors.map CallTargets.LoadError.path)
    let before : List Difference := if want = got then [] else [.loadErrors want got]
    match analyze ⟨c.config, Path.ofRoute dir⟩ fs loaded.modules with
    | .ok r => .ok (Configuration.compare c before r.summary)
    | .error .endless => .error (.analysis .endless)
    | .error e =>
      if c.errors.any fun expected => occursIn expected.toList e.message.toList then
        .ok ⟨c.name, before.isEmpty, "Got expected error: " ++ e.message, before, false⟩
      else .error (.analysis e)

def run (s : Scenario) (fs : Files) (dir : List ByteString) : Except ScenarioError ScenarioOutcome :=
  if s.configurations.isEmpty then .error .noConfigurations
  else (s.configurations.mapM (s.runConfiguration fs dir)).map fun cs => ⟨cs⟩

end Scenario

/-- A scenario succeeds when all of its configurations do. -/
def ScenarioOutcome.success (o : ScenarioOutcome) : Bool :=
  o.configurations.all ConfigurationOutcome.success

/-- What is reported of a configuration that failed. -/
private def failureText (c : ConfigurationOutcome) : String :=
  "[" ++ c.name ++ "] " ++ c.message ++ ":\n  " ++
    "\n  ".intercalate (c.differences.map Difference.message)

def ScenarioOutcome.message (o : ScenarioOutcome) : String :=
  let total := toString o.configurations.length
  let failures := o.configurations.filter fun c => !c.success
  if failures.isEmpty then "All " ++ total ++ " configurations passed"
  else toString failures.length ++ "/" ++ total ++ " configurations failed:\n" ++
    "\n".intercalate (failures.map failureText)

end CallTargets
