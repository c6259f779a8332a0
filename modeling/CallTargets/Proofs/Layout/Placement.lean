import CallTargets.Proofs.Layout.Paths
import Mathlib.Order.Bounds.Basic

/-!
# Placed fields

The fields of a struct follow one another inside it. A field that is aligned starts at the first
multiple of its alignment behind the field before it, and the struct ends at the first multiple of
its own alignment; in a packed struct nothing is left free. Neighbours in an array keep the distance
that an object takes. Alignments need not be powers of two.
-/
namespace CallTargets

open IR

/-! ### Rounding up -/

theorem alignUp_mono {n m a : Nat} (h : n ≤ m) : alignUp n a ≤ alignUp m a := by
  unfold alignUp
  by_cases ha : a ≤ 1
  · simpa [ha] using h
  · simp only [ha, if_false]
    exact Nat.mul_le_mul_right a (Nat.div_le_div_right (by omega))

/-- Rounding up gives the least multiple that is not below a number. -/
theorem alignUp_isLeast (n : Nat) {a : Nat} (ha : 0 < a) :
    IsLeast {m | a ∣ m ∧ n ≤ m} (alignUp n a) := by
  refine ⟨⟨dvd_alignUp ha, le_alignUp n a⟩, ?_⟩
  rintro m ⟨hdvd, hle⟩
  calc alignUp n a ≤ alignUp m a := alignUp_mono hle
    _ = m := alignUp_of_dvd hdvd

@[simp] theorem alignUp_one (n : Nat) : alignUp n 1 = n := by
  simp [alignUp]

/-! ### Arrangements -/

namespace Extent

/-- Where the first `i` fields end. -/
def endOf (starts : List Nat) (es : List Extent) : Nat → Nat
  | 0 => 0
  | i + 1 => ((starts.zip es)[i]?.map fun field => field.1 + field.2.alloc).getD 0

/-- Fields of given extents start at `starts` in a struct of extent `whole`. They are in order and
inside the struct, so no two of them share a byte, and no room is left free but what alignments ask
for. -/
structure Arranged (packed : Bool) (es : List Extent) (starts : List Nat) (whole : Extent) :
    Prop where
  length_eq : starts.length = es.length
  first : ∀ s ∈ starts.head?, s = 0
  ordered : ∀ (i j s s' : Nat) (e : Extent), i < j → starts[i]? = some s → es[i]? = some e →
    starts[j]? = some s' → s + e.alloc ≤ s'
  inside : ∀ (i s : Nat) (e : Extent), starts[i]? = some s → es[i]? = some e →
    s + e.alloc ≤ whole.size
  aligned : packed = false → ∀ (i s : Nat) (e : Extent), starts[i]? = some s → es[i]? = some e →
    IsLeast {n | e.align ∣ n ∧ endOf starts es i ≤ n} s
  padded : packed = false →
    IsLeast {n | whole.align ∣ n ∧ endOf starts es es.length ≤ n} whole.size
  tight : packed = true → (∀ (i s : Nat), starts[i]? = some s → s = endOf starts es i) ∧
    whole.size = endOf starts es es.length
  alloc_eq : whole.alloc = whole.size

theorem aligns_packed (a : Nat) (ha : 1 ≤ a) (es : List Extent) : aligns true a es = a := by
  induction es with
  | nil => rfl
  | cons e es ih => simpa [aligns, alignIn, ha] using ih

theorem endOf_starts (packed : Bool) (es : List Extent) {i : Nat} (hi : i ≤ es.length) :
    endOf (starts packed 0 es) es i = finish packed 0 (es.take i) := by
  -- The end of `i` fields, for any place to start from; in front of the first it is that place.
  have hgen : ∀ (es : List Extent) (f i : Nat), i < es.length →
      (((starts packed f es).zip es)[i]?.map fun field => field.1 + field.2.alloc).getD 0 =
        finish packed f (es.take (i + 1)) := by
    intro es
    induction es with
    | nil => simp
    | cons e es ih =>
      intro f i hi
      cases i with
      | zero => simp [starts, finish]
      | succ i => simpa [starts, finish] using ih _ i (by simpa using hi)
  cases i with
  | zero => simp [endOf, finish]
  | succ i => exact hgen es 0 i hi

theorem start_eq {packed : Bool} {f : Nat} {es : List Extent} {i s : Nat} {e : Extent}
    (hs : (starts packed f es)[i]? = some s) (he : es[i]? = some e) :
    s = alignUp (finish packed f (es.take i)) (e.alignIn packed) := by
  induction es generalizing f i with
  | nil => cases he
  | cons e' es ih =>
    cases i with
    | zero =>
      cases hs
      cases he
      simp [finish]
    | succ i => simpa [finish] using ih hs he

theorem arranged_ofFields (packed : Bool) {es : List Extent} (hpos : ∀ e ∈ es, 0 < e.align) :
    Arranged packed es (starts packed 0 es) (ofFields packed es) := by
  have halign : 0 < (ofFields packed es).align := le_aligns packed 1 es
  have hend : endOf (starts packed 0 es) es es.length = finish packed 0 es := by
    rw [endOf_starts packed es (le_refl _), List.take_length]
  have hstart : ∀ i s e, (starts packed 0 es)[i]? = some s → es[i]? = some e →
      s = alignUp (endOf (starts packed 0 es) es i) (e.alignIn packed) := by
    intro i s e hs he
    have hi : i ≤ es.length := (List.getElem?_eq_some_iff.mp he).1.le
    rw [endOf_starts packed es hi]
    exact start_eq hs he
  constructor
  case length_eq => exact length_starts packed 0 es
  case first =>
    intro s hs
    cases es with
    | nil => cases hs
    | cons e es =>
      cases hs
      exact alignUp_of_dvd (dvd_zero _)
  case ordered =>
    intro i j s s' e hij hs he hs'
    exact start_add_alloc_le_start hij hs he hs'
  case inside =>
    intro i s e hs he
    exact (start_add_alloc_le hs he).trans (le_alignUp _ _)
  case aligned =>
    rintro rfl i s e hs he
    rw [hstart i s e hs he]
    exact alignUp_isLeast _ (hpos e (List.mem_of_getElem? he))
  case padded =>
    rintro rfl
    rw [hend]
    exact alignUp_isLeast _ halign
  case tight =>
    rintro rfl
    refine ⟨fun i s hs => ?_, ?_⟩
    · have hi : i < es.length := by
        rw [← length_starts true 0 es]
        exact (List.getElem?_eq_some_iff.mp hs).1
      simpa [alignIn] using hstart i s es[i] hs (List.getElem?_eq_getElem hi)
    · simp [ofFields, aligns_packed, hend]
  case alloc_eq => exact alignUp_of_dvd (dvd_alignUp halign)

end Extent

namespace Layout

variable {l : Layout} {S : Set StructTy}

/-- The words computed for a type are the numbers of an extent. -/
structure MeasuredAs (l : Layout) (S : Set StructTy) (t : Ty) (e : Extent) : Prop where
  small : e.Small
  size : Agrees l S (l.size t) (some (.ofNat e.size))
  align : Agrees l S (l.align t) (some (.ofNat e.align))
  alloc : Agrees l S (l.alloc t) (some (.ofNat e.alloc))

theorem measuredAs_exact (h : l.Exactly S) {t : Ty} (ht : l.Tame S (maxTypeDepth + 1) t) :
    l.MeasuredAs S t (l.exact t) where
  small := ht.here.1
  size := (measure_exact h (le_refl _) ht).1
  align := (measure_exact h (le_refl _) ht).2
  alloc := alloc_exact h (le_refl _) ht

/-- The fields of a struct are placed as their exact extents ask for. -/
theorem fields_arranged (h : l.Exactly S) {t : Ty} (ht : l.Tame S (maxTypeDepth + 1) t)
    {st : StructTy} (hst : l.defs.struct? t = some st) :
    ∃ (starts : List Nat) (es : List Extent),
      Agrees l S (l.fieldOffsets st) (some (starts.map Int64.ofNat)) ∧
      List.Forall₂ (l.MeasuredAs S) st.fields es ∧
      Extent.Arranged st.packed es starts (l.exact t) := by
  refine ⟨l.fieldStarts st, st.fields.map l.exact, fieldOffsets_exact h (le_refl _) ht hst, ?_, ?_⟩
  · rw [List.forall₂_map_right_iff, List.forall₂_same]
    intro u hu
    rw [← TypeDefs.parts_of_struct hst] at hu
    exact measuredAs_exact h ((ht.part hu).mono (Nat.le_succ _))
  · rw [exact_of_struct ht (le_refl _) hst]
    apply Extent.arranged_ofFields
    simp only [List.mem_map, forall_exists_index, and_imp, forall_apply_eq_imp_iff₂]
    exact fun u _ => extent_align_pos h.positive _ u

/-- An element of an array is addressed at its number times the room that an element takes. -/
theorem innerOffset_element (h : l.Exactly S) {t : Ty} (ht : l.Tame S (maxTypeDepth + 1) t)
    {row : Ty} {len : UInt64} (hrow : l.defs.expand row = .array len t) {i : Nat} (hi : i < 2 ^ 63)
    (type : Ty) :
    Agrees l S (l.innerOffset row [.const (.int type i)] 0)
      (some (some (.ofNat (i * (l.exact t).alloc)))) := by
  simp only [innerOffset, TypeDefs.struct?_of_array hrow, hrow, indexValue_ofNat hi]
  refine (alloc_exact h (le_refl _) ht).then ?_
  rw [Int64.zero_add, ← Int64.ofNat_mul]
  exact .pure _

abbrev structsOf (l : Layout) (t : Ty) : Set StructTy :=
  {st | st ∈ l.defs.structsIn (maxTypeDepth + 1) t}

def Identified (l : Layout) (t : Ty) : Prop :=
  ∀ st ∈ l.structsOf t, ∀ st' ∈ l.structsOf t, st.id = st'.id → st = st'

/-- A type of moderate size is measured exactly, whatever data layout was read. -/
theorem exactly_structsOf {text : String} (hl : l.data = .ofText text) {t : Ty}
    (hid : l.Identified t) (ht : l.Moderate (maxTypeDepth + 1) t) :
    l.Exactly (l.structsOf t) ∧ l.Tame (l.structsOf t) (maxTypeDepth + 1) t := by
  refine ⟨⟨⟨hid, ?_⟩, hl ▸ DataLayout.ofText_positive text⟩, ht.structs fun st hst => hst⟩
  intro st hst u hu
  exact (ht.of_structsIn hst u hu).imp fun _ _ => trivial

end Layout

/-- Whatever a data layout says, a type whose parts are of moderate size is measured without
overflow, the fields of such a struct are arranged in it, and elements of an array of such a type do
not overlap. -/
theorem layout_well_formed {l : Layout} {text : String} (hl : l.data = .ofText text) {t : Ty}
    (hid : l.Identified t) (ht : l.Moderate (maxTypeDepth + 1) t) :
    ∃ whole, l.MeasuredAs (l.structsOf t) t whole ∧
      (∀ st, l.defs.struct? t = some st → ∃ (starts : List Nat) (es : List Extent),
        Layout.Agrees l (l.structsOf t) (l.fieldOffsets st) (some (starts.map Int64.ofNat)) ∧
        List.Forall₂ (l.MeasuredAs (l.structsOf t)) st.fields es ∧
        Extent.Arranged st.packed es starts whole) ∧
      ∀ row len, l.defs.expand row = .array len t →
        (∀ (i : Nat) (type : Ty), i < 2 ^ 63 → Layout.Agrees l (l.structsOf t)
          (l.innerOffset row [.const (.int type i)] 0) (some (some (.ofNat (i * whole.alloc))))) ∧
        ∀ i j, i < j → i * whole.alloc + whole.size ≤ j * whole.alloc := by
  obtain ⟨h, ht⟩ := Layout.exactly_structsOf hl hid ht
  refine ⟨l.exact t, Layout.measuredAs_exact h ht, fun st hst => Layout.fields_arranged h ht hst,
    fun row len hrow => ⟨fun i type hi => Layout.innerOffset_element h ht hrow hi type, ?_⟩⟩
  intro i j hij
  have hroom := (l.exact t).size_le_alloc
  calc i * (l.exact t).alloc + (l.exact t).size ≤ (i + 1) * (l.exact t).alloc := by
        rw [Nat.add_one_mul]
        omega
    _ ≤ j * (l.exact t).alloc := Nat.mul_le_mul_right _ hij

namespace Nested

def hook : Ty := .ptr 0 (.func .void [] false)

def inner : StructTy := ⟨.named "inner", false, false, [.int 32, .array 0 (.int 8), hook]⟩

def middle : StructTy := ⟨.literal 0, true, false, [.int 16, .array 3 (.named "inner")]⟩

def outer : StructTy := ⟨.named "outer", false, false, [.int 8, middle.toTy, .int 64]⟩

/-- Pointers of four bytes, and long integers at multiples of three. -/
def layout : Layout where
  data := .ofText "e-p:32:32-i64:24"
  defs := [("inner", inner.toTy), ("outer", outer.toTy)]

theorem moderate : layout.Moderate (maxTypeDepth + 1) (.named "outer") := by
  decide +kernel

theorem identified : layout.Identified (.named "outer") := by
  have hlist : layout.structsOf (.named "outer") = {st | st ∈ [outer, middle, inner]} := rfl
  rw [Layout.Identified, hlist]
  simp only [Set.mem_ofPred_eq, List.mem_cons, List.not_mem_nil, or_false]
  rintro st (rfl | rfl | rfl) st' (rfl | rfl | rfl) h
  all_goals first | rfl | cases h

end Nested

/-- In the outer struct one byte is followed by the packed struct, without a gap; the long integer
starts behind it at a multiple of three. -/
theorem layout_well_formed_nested :
    ∃ (whole : Extent) (es : List Extent) (starts : List Nat),
      Extent.Arranged false es starts whole ∧ starts.map Int64.ofNat = [0, 1, 27] ∧
      Int64.ofNat whole.size = 36 := by
  obtain ⟨whole, hwhole, hfields, -⟩ := layout_well_formed (l := Nested.layout) rfl
    Nested.identified Nested.moderate
  obtain ⟨starts, es, hoffsets, -, harranged⟩ := hfields Nested.outer rfl
  refine ⟨whole, es, starts, harranged, ?_, ?_⟩
  · obtain ⟨cache, hrun, -⟩ := hoffsets [] (Layout.sound_nil _ _)
    have hvalue : (Nested.layout.fieldOffsets Nested.outer []).map Prod.fst = some [0, 1, 27] := by
      decide +kernel
    rw [hrun] at hvalue
    exact Option.some.inj hvalue
  · obtain ⟨cache, hrun, -⟩ := hwhole.size [] (Layout.sound_nil _ _)
    have hvalue : (Nested.layout.size (.named "outer") []).map Prod.fst = some 36 := by
      decide +kernel
    rw [hrun] at hvalue
    exact Option.some.inj hvalue

end CallTargets
