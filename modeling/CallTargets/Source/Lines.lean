import CallTargets.Files
import CallTargets.Source.Location
import CallTargets.Text.Lines
import CallTargets.Text.Utf8

/-!
# Source lines

Shows the line at a position. A file is read once; one that cannot be read counts as empty from
then on.
-/
namespace CallTargets

/-- The root of the source files, and the lines of those that were read. -/
structure Source where
  root : ByteString
  files : Assoc ByteString (List String)
deriving Repr, Inhabited

namespace Source

def ofRoot (root : ByteString) : Source := ⟨root, []⟩

def lineLimit : Nat := 1024 * 1024

def path (s : Source) (l : Location) : ByteString :=
  Path.below s.root l.file

/-- The lines of a file; a file that cannot be read has none. -/
def readLines (fs : Files) (path : ByteString) : List String :=
  match fs.read path with
  | .ok bytes => (Text.lines lineLimit bytes).lines.map Text.ofUtf8
  | .error _ => []

def trimIndent (s : String) : String :=
  String.ofList (s.toList.dropWhile fun c => c == ' ' || c == '\t')

def line (s : Source) (fs : Files) (l : Location) : Option String × Source :=
  if l.line < 1 ∨ l.file.isEmpty then (none, s)
  else
    let path := s.path l
    let (lines, s) := match s.files.get? path with
      | some known => (known, s)
      | none =>
        let lines := readLines fs path
        (lines, { s with files := s.files.put path lines })
    (lines[(l.line - 1).toNat]?.map trimIndent, s)

end Source
end CallTargets
