import CallTargets.Files
import CallTargets.IR.Reader
import CallTargets.Program
import CallTargets.Text.Blank
import CallTargets.Text.Lines

/-!
# Loading modules

Reads the modules named on the command line and in a list file, each once. Files that cannot be
read are left out and reported; the others keep their order.
-/
namespace CallTargets

open IR

/-- Why one module could not be loaded. -/
inductive LoadFailure where
  | unreadable (e : PathError)
  | bitcode
  | malformed
deriving DecidableEq, Repr, Inhabited

def LoadFailure.message : LoadFailure → String
  | .unreadable e => e.message
  | .bitcode => "binary bitcode is not supported, convert with llvm-dis"
  | .malformed => "malformed module"

structure LoadError where
  path : ByteString
  cause : LoadFailure
deriving DecidableEq, Repr, Inhabited

def LoadError.message (e : LoadError) : String :=
  e.path.text ++ ": " ++ e.cause.message

inductive ListError where
  | unopened (e : PathError)
  | unread (path : ByteString) (e : PathError)
  | lineTooLong (path : ByteString)
deriving DecidableEq, Repr, Inhabited

def ListError.message : ListError → String
  | .unopened e => "opening list file: " ++ e.message
  | .unread path e => "reading list file " ++ path.text ++ ": " ++ e.message
  | .lineTooLong path => "reading list file " ++ path.text ++ ": bufio.Scanner: token too long"

inductive LoadingError where
  | list (e : ListError)
  | noInput
  | cancelled
deriving DecidableEq, Repr, Inhabited

def LoadingError.message : LoadingError → String
  | .list e => e.message
  | .noInput => "no input files"
  | .cancelled => "loading modules: context canceled"

def listLineLimit : Nat := 64 * 1024

/-- The entries of a list file: its lines without blanks around them, empty lines and comments left
out. -/
def listEntries (lines : List ByteString) : List ByteString :=
  (lines.map Text.trimBytes).filter fun s => !s.isEmpty && s.bytes.head? != some 0x23

def readListFile (fs : Files) (path : ByteString) : Except ListError (List ByteString) :=
  match fs.openEntry path with
  | .error e => .error (.unopened e)
  | .ok .directory => .error (.unread path ⟨"read", path, .isDirectory⟩)
  | .ok (.file bytes) =>
    let read := Text.lines listLineLimit bytes
    if read.tooLong then .error (.lineTooLong path)
    else .ok (listEntries (read.lines.map ByteString.mk))

/-- A list with only the first occurrence of each element. -/
def firstOccurrences (l : List ByteString) : List ByteString :=
  l.foldl (fun seen a => if a ∈ seen then seen else seen ++ [a]) []

def bitcodeMagics : List (List UInt8) :=
  [[0x42, 0x43, 0xC0, 0xDE], [0xDE, 0xC0, 0x17, 0x0B]]

def loadModule (fs : Files) (path : ByteString) : Except LoadFailure Module :=
  match fs.read path with
  | .error e => .error (.unreadable e)
  | .ok bytes =>
    if bitcodeMagics.any fun magic => magic.isPrefixOf bytes then .error .bitcode
    else match Module.ofBytes? ⟨bytes⟩ with
      | some m => .ok m
      | none => .error .malformed

/-- The modules that were loaded and the files that were left out, both in order. -/
structure Loaded where
  modules : Program
  errors : List LoadError
deriving Inhabited

def loadPaths (fs : Files) : List ByteString → Loaded
  | [] => ⟨[], []⟩
  | path :: rest =>
    let l := loadPaths fs rest
    match loadModule fs path with
    | .ok m => { l with modules := ⟨path, some m⟩ :: l.modules }
    | .error e => { l with errors := ⟨path, e⟩ :: l.errors }

/-- Loads the given paths and those of a list file, if one is named. -/
def loadModules (fs : Files) (paths : List ByteString) (listFile : ByteString) (cancelled : Bool) :
    Except LoadingError Loaded :=
  let listed : Except ListError (List ByteString) :=
    if listFile.isEmpty then .ok [] else readListFile fs listFile
  match listed with
  | .error e => .error (.list e)
  | .ok more =>
    let all := firstOccurrences (paths ++ more)
    if all.isEmpty then .error .noInput
    else if cancelled then .error .cancelled
    else .ok (loadPaths fs all)

end CallTargets
