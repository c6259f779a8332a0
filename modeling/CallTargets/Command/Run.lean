import CallTargets.Command.Arguments
import CallTargets.Command.Help
import CallTargets.Command.SettingsFile
import CallTargets.Report.Json
import CallTargets.Report.Metrics
import CallTargets.Report.Text

/-!
# Running the command

A run takes the files it may look at and its arguments, and gives what it prints, the files it
leaves and an exit code, or nothing if its analysis does not end. The file for the results is made
empty before any module is loaded. Files that cannot be loaded are reported and left out; if none is
left, the results are those of an empty program.
-/
namespace CallTargets.Command

structure Host where
  files : Files
  timestamp : String
  /-- Results go to a terminal. -/
  terminal : Bool
deriving Inhabited

/-- What a run leaves. Help and version texts are printed apart from results. -/
structure Outcome where
  code : Nat
  results : String
  errors : String
  printed : String
  files : Files
deriving Inhabited

inductive Failure where
  | arguments (e : ArgumentError)
  | settings (e : SettingsError)
  | noSourceRoot
  | phases (n : Int)
  | verbosity (n : Int)
  | format (name : String)
  | profile (name : String) (e : PathError)
  | output (path : ByteString) (e : PathError)
  | loading (e : LoadingError)
  | analysis (e : AnalysisError)
deriving DecidableEq, Repr, Inhabited

def Failure.message : Failure → String
  | .arguments e => e.message
  | .settings e => e.message
  | .noSourceRoot => "--src-root is required"
  | .phases n => "--phase must be positive, got " ++ toString n
  | .verbosity n => "--verbose-level must not be negative, got " ++ toString n
  | .format name => "unknown --format " ++ Text.literal name
  | .profile name e => "creating " ++ name ++ ": " ++ e.message
  | .output path e => "unable to open output file " ++ path.text ++ ": " ++ e.message
  | .loading e => "analyze: loading modules: " ++ e.message
  | .analysis e => "analyze: " ++ e.message

def failureCode : Nat := 2

inductive Format where
  | text
  | json
  | prometheus
deriving DecidableEq, Repr, Inhabited

def Format.ofName? : String → Option Format
  | "text" => some .text
  | "json" => some .json
  | "prometheus" => some .prometheus
  | _ => none

/-- The settings of a run, after all checks. -/
structure Plan where
  options : AnalysisOptions
  listFile : ByteString
  output : ByteString
  format : Format
  dump : Bool
  profile : Bool
  inputs : List ByteString
deriving Inhabited

/-- Checks the settings; the first that does not fit counts. -/
def plan (vs : Values) (inputs : List String) : Except Failure Plan :=
  let root := vs.text .sourceRoot
  let phases := vs.number .phases
  let verbosity := vs.number .verbosity
  if root.isEmpty then .error .noSourceRoot
  else if phases < 1 then .error (.phases phases)
  else if verbosity < 0 then .error (.verbosity verbosity)
  else match Format.ofName? (vs.text .format) with
    | none => .error (.format (vs.text .format))
    | some format => .ok {
        options := ⟨⟨vs.switch .byField, vs.switch .byModule, phases⟩, root⟩
        listFile := vs.text .listFile
        output := vs.text .output
        format := format
        dump := vs.switch .dumpCallees
        profile := vs.switch .profile
        inputs := inputs.map ByteString.ofText }

/-- The results of a run over the modules that were loaded. -/
structure Results where
  summary : Summary
  /-- The statistics that metrics are taken from. -/
  stats : Stats
  loadErrors : List LoadError
deriving Inhabited

def resultsOf (p : Plan) (fs : Files) (loaded : Loaded) : Except AnalysisError Results :=
  if loaded.modules.isEmpty then .ok ⟨.empty, .zero, loaded.errors⟩
  else (analyze p.options fs loaded.modules).map fun r => ⟨r.summary, r.stats, loaded.errors⟩

/-- The report on results in the form that was asked for. -/
def report (p : Plan) (host : Host) (r : Results) : String :=
  match p.format with
  | .text => r.summary.text p.dump (host.terminal && p.output.isEmpty)
  | .json =>
    r.summary.jsonText p.dump (r.loadErrors.map fun e => (e.path.text, e.cause.message)) host.timestamp
  | .prometheus => r.stats.metricsText

def loadErrorLine (e : LoadError) : String :=
  "icallgraph: error loading file '" ++ e.path.text ++ "': " ++ e.cause.message ++ "\n"

/-- A run that ended with a failure, after printing something and changing files. -/
def failed (e : Failure) (errors : String) (fs : Files) : Outcome :=
  ⟨failureCode, "", errors ++ e.message ++ "\n", "", fs⟩

/-- Makes the file for the results, if they go to one. -/
def openOutput (p : Plan) (fs : Files) : Except PathError (Option (List ByteString) × Files) :=
  if p.output.isEmpty then .ok (none, fs)
  else (fs.create p.output).map fun (route, fs) => (some route, fs)

def execute (p : Plan) (host : Host) (fs : Files) : Option Outcome :=
  match openOutput p fs with
  | .error e => some (failed (.output p.output e) "" fs)
  | .ok (route, fs) =>
    match loadModules fs p.inputs p.listFile false with
    | .error e => some (failed (.loading e) "" fs)
    | .ok loaded =>
      let lines := String.join (loaded.errors.map loadErrorLine)
      match resultsOf p fs loaded with
      | .error .endless => none
      | .error e => some (failed (.analysis e) lines fs)
      | .ok r =>
        let text := report p host r
        match route with
        | none => some ⟨0, text, lines, "", fs⟩
        | some route => some ⟨0, "", lines, "", fs.write route text.toUTF8.toList⟩

/-- The names of the profiles, the first made before the run and the second after it. -/
def profileNames : String × String := ("cpu.prof", "mem.prof")

/-- Makes the second profile after a run; that it cannot be made fails a run that succeeded. -/
def finishProfile (out : Outcome) : Outcome :=
  match out.files.create profileNames.2 with
  | .ok (_, fs) => { out with files := fs }
  | .error e =>
    if out.code = 0 then { out with
      code := failureCode
      errors := out.errors ++ (Failure.profile profileNames.2 e).message ++ "\n" }
    else out

/-- Carries out a plan, with profiles if asked for. -/
def perform (p : Plan) (host : Host) : Option Outcome :=
  if p.profile then
    match host.files.create profileNames.1 with
    | .error e => some (failed (.profile profileNames.1 e) "" host.files)
    | .ok (_, fs) => (execute p host fs).map finishProfile
  else execute p host host.files

/-- Runs the command. Help and version win over everything but arguments that are refused. -/
def run (host : Host) (args : List String) : Option Outcome :=
  match Arguments.read args with
  | .error e => some (failed (.arguments e) "" host.files)
  | .ok a =>
    if a.values.switch .help then some ⟨0, "", "", helpText, host.files⟩
    else if a.values.switch .version then some ⟨0, "", "", versionText, host.files⟩
    else match a.values.withFile host.files with
      | .error e => some (failed (.settings e) "" host.files)
      | .ok vs =>
        match plan vs a.files with
        | .error e => some (failed e "" host.files)
        | .ok p => perform p host

end CallTargets.Command
