import CallTargets.Layout.Size

/-!
# The field at an offset

Finds the innermost struct that covers a byte of an object, and the field of it that does. Arrays
are looked through, so every element of an array of structs leads to the same field; an offset
behind the end of the object counts from its start again.
-/
namespace CallTargets

open IR

/-- A field: the struct that has it and its position there. -/
structure FieldRef where
  owner : StructTy
  index : Nat
deriving Repr, Inhabited

/-- The least `k` in `[i, j)` with `p k`, or `j`, found by halving when `p` is monotone. -/
def bisect (p : Nat → Bool) : Nat → Nat → Nat → Nat
  | 0, i, _ => i
  | n + 1, i, j =>
    if i < j then
      let h := (i + j) / 2
      if p h then bisect p n i h else bisect p n (h + 1) j
    else i

/-- The last field that starts at or before an offset, with its start. -/
def lastStart? (offsets : List Int64) (offset : Int64) : Option (Nat × Int64) :=
  let after (i : Nat) : Bool := (offsets[i]?.map fun o => decide (offset < o)).getD true
  match bisect after offsets.length 0 offsets.length with
  | 0 => none
  | i + 1 => offsets[i]?.map fun start => (i, start)

namespace Layout

def wrapped (offset size : Int64) : Int64 :=
  if 0 < size then offset % size else offset

/-- A type without its leading arrays, and the offset inside their element. -/
def peelArrays (l : Layout) : Nat → Ty → Int64 → Query (Ty × Int64)
  | 0, t, offset => pure (t, offset)
  | n + 1, t, offset =>
    match l.defs.expand t with
    | .array _ e => do
      let size ← l.alloc e
      l.peelArrays n e (wrapped offset size)
    | _ => pure (t, offset)

/-- Descends to the innermost struct around an offset; `found` is the field reached so far. -/
def descend (l : Layout) : Nat → Option FieldRef → Ty → Int64 → Query (Option FieldRef)
  | 0, found, _, _ => pure found
  | n + 1, found, t, offset =>
    match l.defs.struct? t with
    | some st =>
      if st.incomplete || st.fields.isEmpty then pure found
      else do
        let offsets ← l.fieldOffsets st
        match lastStart? offsets offset with
        | none => pure found
        | some (i, start) =>
          match st.fields[i]? with
          | some field => l.descend n (some ⟨st, i⟩) field (offset - start)
          | none => pure found
    | none =>
      match l.defs.expand t with
      | .array _ e => do
        let size ← l.alloc e
        l.descend n found e (wrapped offset size)
      | _ => pure found

/-- The innermost field that covers an offset in an object of a type. -/
def fieldAt (l : Layout) (t : Ty) (offset : Int64) : Query (Option FieldRef) := do
  if offset < 0 then return none
  let (t, offset) ← l.peelArrays maxTypeDepth t offset
  match l.defs.struct? t with
  | none => return none
  | some _ =>
    -- Past its end an object goes on as in an array.
    let size ← l.alloc t
    l.descend maxTypeDepth none t (if 0 < size ∧ size ≤ offset then offset % size else offset)

end Layout
end CallTargets
