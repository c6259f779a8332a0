import CallTargets.Command.Setting
import CallTargets.Report.Json
import CallTargets.Text.Literal

/-!
# Help and version texts
-/
namespace CallTargets.Command

def description : String :=
  "icallgraph builds the targets of every indirect call across a set of\n" ++
  "LLVM IR modules.\n" ++
  "\n" ++
  "Candidates are first selected by function type. With --mlta they are narrowed\n" ++
  "to the functions stored into the struct field the called pointer was loaded\n" ++
  "from. With --typm, functions local to one module are only offered to modules\n" ++
  "that can see them through a shared struct type or an untracked escape."

def exampleLines : String :=
  "  icallgraph --src-root /src/linux a.ll b.ll\n" ++
  "  icallgraph --src-root /src/linux --bc-list modules.txt\n" ++
  "  icallgraph --src-root . --mlta=false --format json -o report.json *.ll\n" ++
  "  icallgraph --src-root . --dump-callees -v 1 *.ll"

/-- The flag of a setting and the kind of value it takes. -/
def Flag.column (f : Flag) : String :=
  let letter := match f.short with
    | some c => "  -" ++ String.singleton c ++ ", --"
    | none => "      --"
  let kind := match f.default with
    | .switch _ => ""
    | .number _ => " int"
    | .text _ => " string"
  letter ++ f.name ++ kind

/-- The value that holds by itself; the absence of one goes without saying. -/
def Flag.defaultNote (f : Flag) : String :=
  match f.default with
  | .switch true => " (default true)"
  | .number n => if n = 0 then "" else " (default " ++ toString n ++ ")"
  | .text s => if s.isEmpty then "" else " (default " ++ Text.literal s ++ ")"
  | .switch false => ""

/-- The flags with their descriptions in a column of their own. -/
def flagLines : String :=
  let flags := Setting.all.map Setting.flag
  let width := (flags.map fun f => f.column.length).foldl max 0
  String.join (flags.map fun f =>
    f.column ++ String.ofList (List.replicate (width - f.column.length + 3) ' ') ++ f.usage ++
      f.defaultNote ++ "\n")

def helpText : String :=
  description ++ "\n\nUsage:\n  icallgraph [flags] <ir files...>\n\nExamples:\n" ++
    exampleLines ++ "\n\nFlags:\n" ++ flagLines

def versionText : String :=
  "icallgraph version " ++ programVersion ++ "\n  commit: unknown\n  built:  unknown\n"

end CallTargets.Command
