import CallTargets.IR.Type

/-!
# Kinds and shapes

The kind of a type is its coarse class. The shape of a struct is the sequence of its members'
kinds, written as numbers with a comma behind each.
-/
namespace CallTargets

/-- The class of a type, numbered from 0 in this order; two numbers stand for classes that no type
of a module has. -/
inductive Kind where
  | void
  | half
  | float
  | double
  | x86fp80
  | fp128
  | ppcfp128
  | label
  | metadata
  | mmx
  | token
  | integer
  | function
  | pointer
  | struct
  | array
  | vector
deriving DecidableEq, Repr, Inhabited

def Kind.number : Kind → Nat
  | .void => 0
  | .half => 1
  | .float => 3
  | .double => 4
  | .x86fp80 => 5
  | .fp128 => 6
  | .ppcfp128 => 7
  | .label => 8
  | .metadata => 9
  | .mmx => 10
  | .token => 12
  | .integer => 13
  | .function => 14
  | .pointer => 15
  | .struct => 16
  | .array => 17
  | .vector => 18

theorem Kind.number_injective {a b : Kind} (h : a.number = b.number) : a = b := by
  cases a <;> cases b <;> simp_all [Kind.number]

namespace IR

def FloatKind.kind : FloatKind → Kind
  | .half => .half
  | .single => .float
  | .double => .double
  | .x86fp80 => .x86fp80
  | .fp128 => .fp128
  | .ppcfp128 => .ppcfp128

def TypeDefs.kind (defs : TypeDefs) (t : Ty) : Kind :=
  match defs.expand t with
  | .void => .void
  | .float k => FloatKind.kind k
  | .label => .label
  | .metadata => .metadata
  | .mmx => .mmx
  | .token | .named _ => .token
  | .int _ => .integer
  | .func _ _ _ => .function
  | .ptr _ _ => .pointer
  | .struct _ _ _ | .incomplete _ => .struct
  | .array _ _ => .array
  | .vector _ _ _ => .vector

def TypeDefs.shape (defs : TypeDefs) (fields : List Ty) : String :=
  String.join (fields.map fun f => toString (defs.kind f).number ++ ",")

end IR
end CallTargets
