import CallTargets.IR.Type

/-!
# Equality of types and structs

Two types are equal if they are written alike and the structs in them are the same ones. Names are
compared, not followed.
-/
namespace CallTargets.IR

mutual

def Ty.eqb : Ty → Ty → Bool
  | .void, .void | .label, .label | .token, .token | .metadata, .metadata | .mmx, .mmx => true
  | .float k, .float l => k == l
  | .int a, .int b => a == b
  | .ptr s a, .ptr r b => s == r && a.eqb b
  | .array l a, .array k b => l == k && a.eqb b
  | .vector s l a, .vector r k b => s == r && l == k && a.eqb b
  | .func r ps v, .func q qs w => r.eqb q && Ty.eqbAll ps qs && v == w
  | .struct i p fs, .struct j q gs => i == j && p == q && Ty.eqbAll fs gs
  | .incomplete a, .incomplete b => a == b
  | .named a, .named b => a == b
  | _, _ => false

def Ty.eqbAll : List Ty → List Ty → Bool
  | [], [] => true
  | t :: ts, u :: us => t.eqb u && Ty.eqbAll ts us
  | _, _ => false

end

mutual

theorem Ty.eqb_iff : (t u : Ty) → (t.eqb u = true ↔ t = u)
  | .ptr _ a, u => by cases u <;> simp [Ty.eqb, Ty.eqb_iff a]
  | .array _ a, u => by cases u <;> simp [Ty.eqb, Ty.eqb_iff a]
  | .vector _ _ a, u => by cases u <;> simp [Ty.eqb, Ty.eqb_iff a, and_assoc]
  | .func r ps _, u => by cases u <;> simp [Ty.eqb, Ty.eqb_iff r, Ty.eqbAll_iff ps, and_assoc]
  | .struct _ _ fs, u => by cases u <;> simp [Ty.eqb, Ty.eqbAll_iff fs, and_assoc]
  | .void, u | .label, u | .token, u | .metadata, u | .mmx, u => by cases u <;> simp [Ty.eqb]
  | .float _, u | .int _, u | .incomplete _, u | .named _, u => by cases u <;> simp [Ty.eqb]

theorem Ty.eqbAll_iff : (ts us : List Ty) → (Ty.eqbAll ts us = true ↔ ts = us)
  | [], us => by cases us <;> simp [Ty.eqbAll]
  | t :: ts, us => by cases us <;> simp [Ty.eqbAll, Ty.eqb_iff t, Ty.eqbAll_iff ts]

end

def StructTy.eqb (a b : StructTy) : Bool :=
  a.id == b.id && a.packed == b.packed && a.incomplete == b.incomplete &&
    Ty.eqbAll a.fields b.fields

theorem StructTy.eqb_iff {a b : StructTy} : a.eqb b = true ↔ a = b := by
  cases a
  cases b
  simp [StructTy.eqb, Ty.eqbAll_iff, and_assoc]

instance : BEq StructTy := ⟨StructTy.eqb⟩

instance : LawfulBEq StructTy where
  eq_of_beq h := StructTy.eqb_iff.mp h
  rfl := StructTy.eqb_iff.mpr rfl

end CallTargets.IR
