import CallTargets.ByteString

/-!
# Types

The types of a module. A type that has a name is written by the name and stands for its
definition; a struct written out in place is a struct of its own each time it is written, which
its occurrence number records.
-/
namespace CallTargets.IR

inductive FloatKind where
  | half
  | single
  | double
  | x86fp80
  | fp128
  | ppcfp128
deriving DecidableEq, Repr, Inhabited

/-- Which struct a struct type is: the one with a name, or one of those written in place. -/
inductive StructId where
  | named (name : ByteString)
  | literal (occurrence : Nat)
deriving DecidableEq, Repr, Inhabited

/-- A type. `named` refers to a definition; `struct` and `incomplete` are what a struct's name
leads to, the latter when the struct is declared without a body. -/
inductive Ty where
  | void
  | label
  | token
  | metadata
  | mmx
  | float (kind : FloatKind)
  | int (bits : UInt64)
  | ptr (space : Nat) (elem : Ty)
  | array (len : UInt64) (elem : Ty)
  | vector (scalable : Bool) (len : UInt64) (elem : Ty)
  | func (ret : Ty) (params : List Ty) (variadic : Bool)
  | struct (id : StructId) (packed : Bool) (fields : List Ty)
  | incomplete (name : ByteString)
  | named (name : ByteString)
deriving Repr, Inhabited

/-- The named types of a module with their definitions. -/
abbrev TypeDefs := List (ByteString × Ty)

def TypeDefs.expand (defs : TypeDefs) : Ty → Ty
  | .named n => (defs.lookup n).getD (.named n)
  | t => t

/-- The body of a struct type. -/
structure StructTy where
  id : StructId
  packed : Bool
  /-- Declared without a body. -/
  incomplete : Bool
  fields : List Ty
deriving Repr, Inhabited

/-- The struct a type is written out as. -/
def Ty.struct? : Ty → Option StructTy
  | .struct id packed fields => some ⟨id, packed, false, fields⟩
  | .incomplete name => some ⟨.named name, false, true, []⟩
  | _ => none

def TypeDefs.struct? (defs : TypeDefs) (t : Ty) : Option StructTy :=
  (defs.expand t).struct?

def StructTy.toTy (s : StructTy) : Ty :=
  match s.incomplete, s.id with
  | true, .named name => .incomplete name
  | _, _ => .struct s.id s.packed s.fields

mutual

/-- The structs written inside a type, itself included. Names are not followed. -/
def Ty.structs : Ty → List StructTy
  | .ptr _ e => e.structs
  | .array _ e => e.structs
  | .vector _ _ e => e.structs
  | .func r ps _ => r.structs ++ Ty.structsOf ps
  | .struct id packed fields => ⟨id, packed, false, fields⟩ :: Ty.structsOf fields
  | .incomplete name => [⟨.named name, false, true, []⟩]
  | _ => []

def Ty.structsOf : List Ty → List StructTy
  | [] => []
  | t :: ts => t.structs ++ Ty.structsOf ts

end

end CallTargets.IR
