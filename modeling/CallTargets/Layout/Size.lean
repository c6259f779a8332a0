import CallTargets.IR.Type
import CallTargets.Layout.DataLayout

/-!
# Sizes, alignments and field offsets

All numbers are bytes in wrapping 64-bit arithmetic. Descent into nested types ends after 64
levels, below which everything has size zero and alignment one. Struct layouts are remembered: a
struct that was laid out once keeps its layout, also when it is met again at another depth.

The alignment of a vector is the least power of two that holds it. Above `2 ^ 62` there is none,
the search for it would go on for ever, and the query has no answer.
-/
namespace CallTargets

open IR

/-- Where the fields of a struct start, its size and its alignment. -/
structure StructLayout where
  offsets : List Int64
  size : Int64
  align : Int64
deriving DecidableEq, Repr, Inhabited

abbrev LayoutCache := Assoc StructId StructLayout

/-- A question about layouts. It may find no answer and it may remember struct layouts. -/
abbrev Query := StateT LayoutCache Option

/-- The data layout of a module and the types it defines. -/
structure Layout where
  data : DataLayout
  defs : TypeDefs
deriving Repr, Inhabited

def maxTypeDepth : Nat := 64

/-- The next multiple of `a` that is not below `n`; alignments up to one keep `n`. -/
def alignTo (n a : Int64) : Int64 :=
  if a ≤ 1 then n else (n + a - 1) / a * a

/-- The least power of two that is not below `n`, if a 64-bit word holds one. -/
def powerOfTwoCeil? (n : Int64) : Option Int64 :=
  ((List.range 63).map fun e => Int64.ofNat (1 <<< e)).find? (n ≤ ·)

def floatSize : FloatKind → Int64
  | .half => 2
  | .single => 4
  | .double => 8
  | .x86fp80 => 10
  | .fp128 | .ppcfp128 => 16

def floatAlign : FloatKind → Int64
  | .x86fp80 => 16
  | k => floatSize k

/-- The bytes of an integer of a width, a partial byte counted in full. -/
def intSize (bits : UInt64) : Int64 :=
  ((bits + 7) / 8).toInt64

/-- A length as a signed word, if it is one. -/
def length? (len : UInt64) : Option Int64 :=
  if 0 ≤ len.toInt64 then some len.toInt64 else none

/-- Sizes and alignments of the types up to some depth. -/
structure Measure where
  size : Ty → Query Int64
  align : Ty → Query Int64

/-- The end of the fields placed so far, the largest alignment and the offsets, last first. -/
structure Placed where
  finish : Int64
  align : Int64
  offsets : List Int64

namespace Layout

/-- Places a field behind those placed so far. -/
def placeField (below : Measure) (packed : Bool) (p : Placed) (t : Ty) : Query Placed := do
  let fieldAlign ← if packed then pure 1 else below.align t
  let start := alignTo p.finish fieldAlign
  -- Packed or not, a field takes the room that an array element of its type would take.
  let size ← below.size t
  let align ← below.align t
  return ⟨start + alignTo size align, max p.align fieldAlign, start :: p.offsets⟩

/-- The layout of a struct whose fields are measured by `below`. -/
def structWith (below : Measure) (st : StructTy) : Query StructLayout := do
  match (← get).get? st.id with
  | some known => return known
  | none =>
    if st.incomplete then return ⟨[], 0, 1⟩
    let p ← st.fields.foldlM (placeField below st.packed) ⟨0, 1, []⟩
    let laidOut : StructLayout := ⟨p.offsets.reverse, alignTo p.finish p.align, p.align⟩
    modify fun cache => cache.put st.id laidOut
    return laidOut

/-- The size of a type whose parts are measured by `below`. -/
def sizeWith (l : Layout) (below : Measure) (t : Ty) : Query Int64 :=
  match l.defs.struct? t with
  | some st => do return (← structWith below st).size
  | none =>
    match l.defs.expand t with
    | .int bits => pure (intSize bits)
    | .float k => pure (floatSize k)
    | .ptr _ _ => pure l.data.pointerSize
    | .mmx => pure 8
    | .array len e =>
      match length? len with
      | some n => do
        let size ← below.size e
        let align ← below.align e
        return n * alignTo size align
      | none => pure 0
    | .vector _ len e =>
      match length? len with
      | some n =>
        match l.defs.expand e with
        -- Integers are packed bit by bit.
        | .int bits => pure ((n * bits.toInt64 + 7) / 8)
        | _ => do return n * (← below.size e)
      | none => pure 0
    | _ => pure 0

/-- The alignment of a type whose parts are measured by `below`. -/
def alignWith (l : Layout) (below : Measure) (t : Ty) : Query Int64 :=
  match l.defs.struct? t with
  | some st => do return (← structWith below st).align
  | none =>
    match l.defs.expand t with
    | .int bits =>
      match l.data.intAlign.get? bits with
      | some a => pure a
      | none => do return min (← powerOfTwoCeil? (intSize bits)) 16
    | .float k => pure (floatAlign k)
    | .ptr _ _ => pure l.data.pointerAlign
    | .mmx => pure 8
    | .array _ e => below.align e
    | .vector _ _ _ => do
      let size ← l.sizeWith below t
      powerOfTwoCeil? size
    | _ => pure 1

/-- Sizes and alignments, descending at most `n` levels. -/
def measure (l : Layout) : Nat → Measure
  | 0 => ⟨fun _ => pure 0, fun _ => pure 1⟩
  | n + 1 => ⟨l.sizeWith (l.measure n), l.alignWith (l.measure n)⟩

def size (l : Layout) (t : Ty) : Query Int64 :=
  (l.measure (maxTypeDepth + 1)).size t

def align (l : Layout) (t : Ty) : Query Int64 :=
  (l.measure (maxTypeDepth + 1)).align t

/-- The distance of neighbours in an array of a type. -/
def alloc (l : Layout) (t : Ty) : Query Int64 := do
  let size ← l.size t
  let align ← l.align t
  return alignTo size align

def fieldOffsets (l : Layout) (st : StructTy) : Query (List Int64) := do
  return (← structWith (l.measure maxTypeDepth) st).offsets

end Layout
end CallTargets
