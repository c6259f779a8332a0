import CallTargets.Command.Setting
import CallTargets.Document.Decode
import CallTargets.Document.Reader
import CallTargets.Files

/-!
# Settings files

A file that gives values to settings, by the names of their flags. Settings that were given as
arguments keep their values.
-/
namespace CallTargets.Command

open Document

inductive SettingsError where
  | unreadable (e : PathError)
  | malformed (path : String) (e : ReadError)
  | unfit (path : String) (problems : List Problem)
deriving DecidableEq, Repr, Inhabited

def SettingsError.message : SettingsError → String
  | .unreadable e => "reading config: " ++ e.message
  | .malformed path e => "parsing config " ++ path ++ ": " ++ e.message
  | .unfit path problems =>
    "parsing config " ++ path ++ ": " ++ Problem.report problems

def fileSettings : List Setting :=
  [.byField, .byModule, .phases, .verbosity, .sourceRoot, .listFile, .output, .format,
   .dumpCallees]

def Setting.decode (s : Setting) : Decoder Value := fun n =>
  match s.flag.default with
  | .switch _ => (decodeBool n).map .switch
  | .number _ => (decodeInt n).map .number
  | .text _ => (decodeText n).map .text

def decodeSettings : Decoder Values :=
  decodeRecord "main.fileConfig" [] fun key =>
    (fileSettings.find? fun s => s.flag.name == key).map fun s =>
      setField s.decode fun v vs => vs.put s v

def readSettings (fs : Files) (path : String) : Except SettingsError Values :=
  match fs.read path with
  | .error e => .error (.unreadable e)
  | .ok bytes =>
    match Document.read bytes with
    | .error e => .error (.malformed path e)
    | .ok none => .ok []
    | .ok (some node) =>
      match decodeSettings node with
      | ⟨values, []⟩ => .ok (values.getD [])
      | ⟨_, problems⟩ => .error (.unfit path problems)

/-- Completes values by those of the settings file they name. -/
def Values.withFile (vs : Values) (fs : Files) : Except SettingsError Values :=
  let path := vs.text .config
  if path.isEmpty then .ok vs
  else (readSettings fs path).map fun more =>
    more.foldl (fun vs (s, v) => vs.putDefault s v) vs

end CallTargets.Command
