import CallTargets.IR.Frame
import CallTargets.Layout.Field

/-!
# Addresses as fields

Folds address computations into a byte offset from an object of a known type, and finds the struct
field that an address designates. Indices that are no constant integers count as zero.
-/
namespace CallTargets

open IR

/-- The value of a constant integer index that fits a signed word, else zero. -/
def indexValue : Value → Int64
  | .const (.int _ v) => if Text.fitsInt64 v then Int64.ofInt v else 0
  | _ => 0

namespace Layout

/-- The offset that indices select inside an object of a type. A struct has to have the field. -/
def innerOffset (l : Layout) : Ty → List Value → Int64 → Query (Option Int64)
  | _, [], offset => pure (some offset)
  | t, i :: is, offset =>
    match l.defs.struct? t with
    | some st => do
      let k := indexValue i
      if k < 0 then return none
      match st.fields[k.toInt.toNat]? with
      | none => return none
      | some field =>
        let offsets ← l.fieldOffsets st
        l.innerOffset field is (offset + (offsets[k.toInt.toNat]?).getD 0)
    | none =>
      match l.defs.expand t with
      | .array _ e | .vector _ _ e => do
        let size ← l.alloc e
        l.innerOffset e is (offset + indexValue i * size)
      | _ => pure none

def indexedOffset (l : Layout) (elem : Ty) : List Value → Query (Option Int64)
  | [] => pure (some 0)
  | i :: is => do
    -- The first index steps over whole objects.
    let size ← l.alloc elem
    l.innerOffset elem is (indexValue i * size)

/-- Adds up nested address computations, `n` further ones at most. -/
def foldGeps (l : Layout) (fr : Frame) : Nat → Gep → Int64 → Query (Option (Ty × Int64))
  | n, g, before => do
    match ← l.indexedOffset g.elem g.indices with
    | none => return none
    | some offset =>
      let total := before + offset
      match n with
      | 0 => return some (g.elem, total)
      | n + 1 =>
        match fr.strip g.src with
        | .const c =>
          match c.gep? with
          | some inner => l.foldGeps fr n inner total
          | none => return some (g.elem, total)
        | _ => return some (g.elem, total)

/-- The object type and byte offset an address computation stands for. Constant computations in
its source are folded in, and the type is that of the innermost one. -/
def gepOffset (l : Layout) (fr : Frame) (v : Value) : Query (Option (Ty × Int64)) :=
  match fr.gep? v with
  | some g => l.foldGeps fr (maxGeps - 1) g 0
  | none => pure none

/-- The struct field an address designates. -/
def resolve (l : Layout) (fr : Frame) (addr : Value) : Query (Option FieldRef) := do
  let v := fr.strip addr
  match fr.gep? v with
  | some _ =>
    match ← l.gepOffset fr v with
    | some (t, offset) => l.fieldAt t offset
    | none => return none
  | none =>
    -- A global or a stack slot is designated as a whole, at offset zero.
    match fr.global? v with
    | some g => l.fieldAt g.content 0
    | none =>
      match (fr.inst? v).map Inst.op with
      | some (.alloca t _) => l.fieldAt t 0
      | _ => return none

end Layout
end CallTargets
