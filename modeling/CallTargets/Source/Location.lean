import CallTargets.IR.Module

/-!
# Source positions

A position is a file name as the compiler recorded it and a line. Instructions have one through
the `dbg` record attached to them, functions through their subprogram.
-/
namespace CallTargets

open IR

structure Location where
  file : ByteString
  line : Int
deriving DecidableEq, Repr, Inhabited

namespace Location

def unknown : Location := ⟨"", 0⟩

/-- `file:line`, or nothing when the file is not known. -/
def text (l : Location) : String :=
  if l.file.isEmpty then "" else l.file.text ++ ":" ++ toString l.line

def isUnknown (l : Location) : Bool :=
  l.file.isEmpty && l.line == 0

/-- The position of an instruction. Lines below one and scopes without a file give none. -/
def ofInst? (i : Inst) : Option Location :=
  match debugNode? i.attachments with
  | some (.location line file) =>
    if line < 1 ∨ file.isEmpty then none else some ⟨file, line⟩
  | _ => none

/-- The position at which a function is declared. -/
def ofFunc? (f : Func) : Option Location :=
  match debugNode? f.attachments with
  | some (.subprogram (some file) line) => some ⟨file, line⟩
  | _ => none

end Location

end CallTargets
