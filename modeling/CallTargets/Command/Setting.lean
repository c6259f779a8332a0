import CallTargets.Assoc

/-!
# Settings of the command

A setting has a name and perhaps a short letter, takes a switch, a number or a text, and has a
value that holds unless another one is given.
-/
namespace CallTargets.Command

inductive Setting where
  | listFile
  | config
  | dumpCallees
  | format
  | help
  | byField
  | output
  | phases
  | profile
  | sourceRoot
  | byModule
  | verbosity
  | version
deriving DecidableEq, Repr, Inhabited

inductive Value where
  | switch (b : Bool)
  | number (n : Int)
  | text (s : String)
deriving DecidableEq, Repr, Inhabited

/-- How a setting is given and described. -/
structure Flag where
  name : String
  short : Option Char
  default : Value
  usage : String
deriving DecidableEq, Repr, Inhabited

def Setting.all : List Setting :=
  [.listFile, .config, .dumpCallees, .format, .help, .byField, .output, .phases, .profile,
   .sourceRoot, .byModule, .verbosity, .version]

def Setting.flag : Setting → Flag
  | .listFile => ⟨"bc-list", none, .text "", "File listing one IR module path per line"⟩
  | .config => ⟨"config", none, .text "", "YAML file with flag defaults; explicit flags win"⟩
  | .dumpCallees =>
    ⟨"dump-callees", none, .switch false, "Include the targets of every indirect call"⟩
  | .format => ⟨"format", none, .text "text", "Output format: text, json or prometheus"⟩
  | .help => ⟨"help", some 'h', .switch false, "help for icallgraph"⟩
  | .byField =>
    ⟨"mlta", none, .switch true,
      "Narrow candidates by the struct field the callee was loaded from"⟩
  | .output =>
    ⟨"output", some 'o', .text "", "Write results to this file instead of stdout"⟩
  | .phases => ⟨"phase", none, .number 2, "Maximum number of analysis phases"⟩
  | .profile =>
    ⟨"profile", none, .switch false,
      "Enable CPU and memory profiling (writes cpu.prof and mem.prof to current directory)"⟩
  | .sourceRoot =>
    ⟨"src-root", none, .text "", "Source root joined onto file names in debug info"⟩
  | .byModule =>
    ⟨"typm", none, .switch true,
      "Filter candidates by module type visibility; when off only one phase runs"⟩
  | .verbosity =>
    ⟨"verbose-level", some 'v', .number 0, "Diagnostic verbosity (0 quiet, 1 info, 2 debug)"⟩
  | .version => ⟨"version", none, .switch false, "version for icallgraph"⟩

def Setting.ofName? (name : String) : Option Setting :=
  Setting.all.find? fun s => s.flag.name == name

def Setting.ofShort? (c : Char) : Option Setting :=
  Setting.all.find? fun s => s.flag.short == some c

/-- Switches need no value. -/
def Setting.isSwitch (s : Setting) : Bool :=
  match s.flag.default with
  | .switch _ => true
  | _ => false

abbrev Values := Assoc Setting Value

namespace Values

def valueOf (vs : Values) (s : Setting) : Value :=
  (vs.get? s).getD s.flag.default

def switch (vs : Values) (s : Setting) : Bool :=
  match vs.valueOf s with
  | .switch b => b
  | _ => false

def number (vs : Values) (s : Setting) : Int :=
  match vs.valueOf s with
  | .number n => n
  | _ => 0

def text (vs : Values) (s : Setting) : String :=
  match vs.valueOf s with
  | .text t => t
  | _ => ""

/-- Adds a value unless the setting has one. -/
def putDefault (vs : Values) (s : Setting) (v : Value) : Values :=
  match vs.get? s with
  | some _ => vs
  | none => vs.put s v

end Values
end CallTargets.Command
