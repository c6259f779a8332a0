import CallTargets.Proofs.Layout.Remembered

/-!
# Exact sizes

Sizes, alignments and field offsets as natural numbers. The words that are computed for a type are
these numbers as long as all types it contains by value are of a moderate size.
-/
namespace CallTargets

open IR

/-! ### Words -/

/-- The next multiple of `a` that is not below `n`; alignments up to one keep `n`. -/
def alignUp (n a : Nat) : Nat :=
  if a ≤ 1 then n else (n + a - 1) / a * a

theorem le_alignUp (n a : Nat) : n ≤ alignUp n a := by
  unfold alignUp
  split
  · exact le_refl n
  · next h =>
    have hlt := Nat.lt_div_mul_add (a := n + a - 1) (b := a) (by omega)
    omega

theorem alignUp_le (n a : Nat) : alignUp n a ≤ n + a := by
  unfold alignUp
  split
  · exact Nat.le_add_right n a
  · have hle := Nat.div_mul_le_self (n + a - 1) a
    omega

theorem dvd_alignUp {n a : Nat} (ha : 0 < a) : a ∣ alignUp n a := by
  unfold alignUp
  by_cases h : a ≤ 1
  · have hone : a = 1 := by omega
    simp [hone]
  · simp [h]

theorem alignUp_of_dvd {n a : Nat} (h : a ∣ n) : alignUp n a = n := by
  unfold alignUp
  by_cases ha : a ≤ 1
  · simp [ha]
  · obtain ⟨k, rfl⟩ := h
    have hdiv : (a * k + a - 1) / a = k := by
      rw [Nat.add_sub_assoc (by omega), Nat.mul_add_div (by omega),
        Nat.div_eq_of_lt (by omega), Nat.add_zero]
    simp [ha, hdiv, Nat.mul_comm]

theorem alignTo_ofNat {n a : Nat} (hn : n < 2 ^ 62) (ha : a < 2 ^ 62) :
    alignTo (.ofNat n) (.ofNat a) = .ofNat (alignUp n a) := by
  have hone : Int64.ofNat a ≤ 1 ↔ a ≤ 1 :=
    Int64.ofNat_le_iff_le (b := 1) (by omega) (by decide)
  unfold alignTo alignUp
  by_cases h : a ≤ 1
  · rw [if_pos (hone.mpr h), if_pos h]
  · rw [if_neg (hone.not.mpr h), if_neg h, Int64.ofNat_mul, Int64.ofNat_div (by omega) (by omega),
      Int64.ofNat_sub _ _ (by omega), Int64.ofNat_add]
    rfl

theorem max_ofNat {a b : Nat} (ha : a < 2 ^ 63) (hb : b < 2 ^ 63) :
    max (Int64.ofNat a) (Int64.ofNat b) = Int64.ofNat (max a b) := by
  have hle := Int64.ofNat_le_iff_le ha hb
  change (if Int64.ofNat a ≤ Int64.ofNat b then _ else _) = _
  rw [max_def]
  by_cases h : a ≤ b
  · rw [if_pos (hle.mpr h), if_pos h]
  · rw [if_neg (hle.not.mpr h), if_neg h]

theorem min_ofNat {a b : Nat} (ha : a < 2 ^ 63) (hb : b < 2 ^ 63) :
    min (Int64.ofNat a) (Int64.ofNat b) = Int64.ofNat (min a b) := by
  have hle := Int64.ofNat_le_iff_le ha hb
  change (if Int64.ofNat a ≤ Int64.ofNat b then _ else _) = _
  rw [min_def]
  by_cases h : a ≤ b
  · rw [if_pos (hle.mpr h), if_pos h]
  · rw [if_neg (hle.not.mpr h), if_neg h]

theorem toInt64_eq_ofNat (n : UInt64) : n.toInt64 = .ofNat n.toNat := by
  conv_lhs => rw [← UInt64.ofNat_toNat (x := n), UInt64.toInt64_ofNat']

theorem powerOfTwoCeil?_ofNat {n : Nat} (hn : n ≤ 2 ^ 62) :
    powerOfTwoCeil? (.ofNat n) = some (.ofNat (2 ^ Nat.clog 2 n)) := by
  have hle {e : Nat} (he : e < 63) : Int64.ofNat n ≤ Int64.ofNat (1 <<< e) ↔ n ≤ 2 ^ e := by
    rw [Nat.one_shiftLeft]
    exact Int64.ofNat_le_iff_le (by omega) (Nat.pow_lt_pow_right one_lt_two he)
  have hclog : Nat.clog 2 n < 63 := Nat.lt_succ_of_le (Nat.clog_le_of_le_pow hn)
  have hfind : (List.range 63).find? ((fun p => decide (Int64.ofNat n ≤ p)) ∘
      fun e => Int64.ofNat (1 <<< e)) = some (Nat.clog 2 n) := by
    rw [List.find?_range_eq_some]
    refine ⟨?_, List.mem_range.mpr hclog, ?_⟩
    · simpa [hle hclog] using Nat.le_pow_clog one_lt_two n
    · intro e he
      simpa [hle (he.trans hclog)] using Nat.pow_lt_of_lt_clog he
  rw [powerOfTwoCeil?, List.find?_map, hfind, Option.map_some, Nat.one_shiftLeft]

/-! ### Extents -/

structure Extent where
  size : Nat
  align : Nat
deriving DecidableEq, Repr

def extentLimit : Nat := 2 ^ 58

namespace Extent

def Small (e : Extent) : Prop := e.size < extentLimit ∧ e.align < extentLimit

instance (e : Extent) : Decidable e.Small :=
  inferInstanceAs (Decidable (_ ∧ _))

def alloc (e : Extent) : Nat := alignUp e.size e.align

theorem size_le_alloc (e : Extent) : e.size ≤ e.alloc := le_alignUp _ _

theorem Small.alloc_lt {e : Extent} (h : e.Small) : e.alloc < 2 ^ 60 := by
  obtain ⟨hsize, halign⟩ := h
  have hle := alignUp_le e.size e.align
  unfold extentLimit at hsize halign
  unfold alloc
  omega

/-- The alignment of a field; in a packed struct no field is aligned. -/
def alignIn (packed : Bool) (e : Extent) : Nat := if packed then 1 else e.align

def starts (packed : Bool) : Nat → List Extent → List Nat
  | _, [] => []
  | finish, e :: es =>
    let start := alignUp finish (e.alignIn packed)
    start :: starts packed (start + e.alloc) es

def finish (packed : Bool) : Nat → List Extent → Nat
  | finish, [] => finish
  | before, e :: es => finish packed (alignUp before (e.alignIn packed) + e.alloc) es

/-- The largest alignment of fields, and at least `a`. -/
def aligns (packed : Bool) (a : Nat) (es : List Extent) : Nat :=
  es.foldl (fun a e => max a (e.alignIn packed)) a

def ofFields (packed : Bool) (es : List Extent) : Extent :=
  ⟨alignUp (finish packed 0 es) (aligns packed 1 es), aligns packed 1 es⟩

theorem le_finish (packed : Bool) (f : Nat) (es : List Extent) : f ≤ finish packed f es := by
  induction es generalizing f with
  | nil => exact le_refl f
  | cons e es ih =>
    have hstep := ih (alignUp f (e.alignIn packed) + e.alloc)
    have hup := le_alignUp f (e.alignIn packed)
    rw [finish]
    omega

theorem le_aligns (packed : Bool) (a : Nat) (es : List Extent) : a ≤ aligns packed a es := by
  induction es generalizing a with
  | nil => exact le_refl a
  | cons e es ih => exact (le_max_left _ _).trans (ih _)

theorem length_starts (packed : Bool) (f : Nat) (es : List Extent) :
    (starts packed f es).length = es.length := by
  induction es generalizing f with
  | nil => rfl
  | cons e es ih => simp [starts, ih]

end Extent

namespace Layout

/-- The exact extent of a type whose parts have the extents `below`. -/
def extentBy (l : Layout) (below : Ty → Extent) (t : Ty) : Extent :=
  match l.defs.struct? t with
  | some st => .ofFields st.packed (st.fields.map below)
  | none =>
    match l.defs.expand t with
    | .int bits =>
      let size := (bits.toNat + 7) / 8
      ⟨size, ((l.data.intAlign.get? bits).map Int64.toNatClampNeg).getD
        (min (2 ^ Nat.clog 2 size) 16)⟩
    | .float k => ⟨(floatSize k).toNatClampNeg, (floatAlign k).toNatClampNeg⟩
    | .ptr _ _ => ⟨l.data.pointerSize.toNatClampNeg, l.data.pointerAlign.toNatClampNeg⟩
    | .mmx => ⟨8, 8⟩
    | .array len e => ⟨len.toNat * (below e).alloc, (below e).align⟩
    | .vector _ len e =>
      let size := match l.defs.expand e with
        | .int bits => (len.toNat * bits.toNat + 7) / 8
        | _ => len.toNat * (below e).size
      ⟨size, 2 ^ Nat.clog 2 size⟩
    | _ => ⟨0, 1⟩

/-- The exact extent of a type, descending at most `n` levels. -/
def extent (l : Layout) : Nat → Ty → Extent
  | 0, _ => ⟨0, 1⟩
  | n + 1, t => l.extentBy (l.extent n) t

def exact (l : Layout) (t : Ty) : Extent := l.extent (maxTypeDepth + 1) t

/-- All types that a type contains by value are of moderate size, and less than `n` levels of them
are nested. -/
abbrev Moderate (l : Layout) (n : Nat) (t : Ty) : Prop :=
  l.defs.Within (fun u => (l.exact u).Small) n t

theorem extentBy_congr (l : Layout) {below below' : Ty → Extent} {t : Ty}
    (h : ∀ u ∈ l.defs.parts t, below u = below' u) : l.extentBy below t = l.extentBy below' t := by
  unfold extentBy
  cases hst : l.defs.struct? t with
  | some st =>
    rw [TypeDefs.parts_of_struct hst] at h
    simp only [List.map_congr_left h]
  | none =>
    cases hexp : l.defs.expand t with
    | array len e => simp only [h e (by simp [TypeDefs.parts_of_array hexp])]
    | vector scalable len e => simp only [h e (by simp [TypeDefs.parts_of_vector hexp])]
    | _ => rfl

theorem extent_eq (l : Layout) {P : Ty → Prop} {n m : Nat} {t : Ty} (h : l.defs.Within P n t)
    (hnm : n ≤ m) : l.extent m t = l.extent n t := by
  induction h generalizing m with
  | @intro n t _ _ ih =>
    obtain ⟨k, rfl⟩ : ∃ k, m = k + 1 := ⟨m - 1, by omega⟩
    exact l.extentBy_congr fun u hu => ih u hu (by omega)

theorem exact_eq (l : Layout) {P : Ty → Prop} {n : Nat} {t : Ty} (h : l.defs.Within P n t)
    (hn : n ≤ maxTypeDepth + 1) : l.exact t = l.extent n t :=
  l.extent_eq h hn

end Layout

/-! ### Data layouts -/

theorem Assoc.mem_of_get? {κ α : Type} [DecidableEq κ] {k : κ} {a : α} {m : Assoc κ α}
    (h : m.get? k = some a) : (k, a) ∈ m := by
  induction m with
  | nil => cases h
  | cons entry m ih =>
    obtain ⟨k', a'⟩ := entry
    rw [get?] at h
    split at h
    · next hk =>
      cases h
      rw [hk]
      exact List.mem_cons_self
    · exact List.mem_cons_of_mem _ (ih h)

structure DataLayout.Positive (d : DataLayout) : Prop where
  pointerSize : 0 < d.pointerSize
  pointerAlign : 0 < d.pointerAlign
  intAlign : ∀ w a, d.intAlign.get? w = some a → 0 < a

namespace DataLayout

theorem readBytes?_pos {s : String} {n : Int64} (h : readBytes? s = some n) : 0 < n := by
  obtain ⟨i, hi, rfl⟩ := Option.map_eq_some_iff.mp h
  obtain ⟨hread, hpos⟩ := Option.filter_eq_some_iff.mp hi
  have hfits := (Option.filter_eq_some_iff.mp hread).2
  simp only [Bool.decide_and, Bool.and_eq_true, decide_eq_true_eq] at hpos
  simp only [Text.fitsInt64, Bool.and_eq_true, decide_eq_true_eq] at hfits
  have hmax : i ≤ 2 ^ 63 - 1 := hfits.2
  rw [Int64.lt_iff_toInt_lt, Int64.toInt_ofInt_of_le (by omega) (by omega)]
  change 0 < i / 8
  omega

/-- A text specifies a number of bytes: it is written in one of the specifications, behind the first
colon, as a positive number of bits that makes whole bytes. -/
def Written (text : String) (n : Int64) : Prop :=
  ∃ spec ∈ parts '-' text.toList, ∃ s ∈ (fields spec).tail, readBytes? s = some n

/-- The sizes and alignments of a data layout satisfy a predicate. -/
structure All (P : Int64 → Prop) (d : DataLayout) : Prop where
  pointerSize : P d.pointerSize
  pointerAlign : P d.pointerAlign
  intAlign : ∀ w a, d.intAlign.get? w = some a → P a

variable {P : Int64 → Prop} {d : DataLayout}

theorem all_standard (h : ∀ n ∈ [1, 2, 4, 8, 16], P n) : standard.All P where
  pointerSize := h 8 (by simp)
  pointerAlign := h 8 (by simp)
  intAlign w a hget := by
    have hall : ∀ entry ∈ standard.intAlign, [1, 2, 4, 8, 16].contains entry.2 :=
      List.all_eq_true.mp (by decide)
    exact h a (List.contains_iff_mem.mp (hall (w, a) (Assoc.mem_of_get? hget)))

theorem All.setPointer (h : d.All P) {size : String} {more : List String}
    (hnew : ∀ s ∈ size :: more, ∀ n, readBytes? s = some n → P n) :
    (d.setPointer size more).All P := by
  have hsize := hnew size List.mem_cons_self
  unfold DataLayout.setPointer
  cases ha : more.head?.bind readBytes? with
  | none =>
    cases hs : readBytes? size with
    | none => exact h
    | some n => exact ⟨hsize n hs, hsize n hs, h.intAlign⟩
  | some a =>
    obtain ⟨s, hs, hread⟩ := Option.bind_eq_some_iff.mp ha
    have halign : P a := hnew s (List.mem_cons_of_mem _ (List.mem_of_head? hs)) a hread
    cases hs : readBytes? size with
    | none => exact ⟨h.pointerSize, halign, h.intAlign⟩
    | some n => exact ⟨hsize n hs, halign, h.intAlign⟩

theorem All.apply (h : d.All P) {spec : List String}
    (hnew : ∀ s ∈ spec.tail, ∀ n, readBytes? s = some n → P n) : (d.apply spec).All P := by
  unfold DataLayout.apply
  split
  · next name first more =>
    split
    · exact h.setPointer hnew
    · split
      · split
        · next w n _ hn =>
          refine ⟨h.pointerSize, h.pointerAlign, ?_⟩
          intro w' a ha
          rw [Assoc.get?_put] at ha
          split at ha
          · cases ha
            exact hnew first List.mem_cons_self n hn
          · exact h.intAlign w' a ha
        · exact h
      · exact h
  · exact h

/-- A text only gives the sizes and alignments that it specifies. All others are those of a 64-bit
target: what is malformed is ignored. -/
theorem all_ofText {text : String} (hstandard : standard.All P)
    (hwritten : ∀ n, Written text n → P n) : (ofText text).All P := by
  have hfold (specs : List (List Char)) (hspecs : specs ⊆ parts '-' text.toList) (d : DataLayout)
      (hd : d.All P) : (specs.foldl (fun l spec => l.apply (fields spec)) d).All P := by
    induction specs generalizing d with
    | nil => exact hd
    | cons spec specs ih =>
      obtain ⟨hspec, hrest⟩ := List.cons_subset.mp hspecs
      exact ih hrest _ (hd.apply fun s hs n hn => hwritten n ⟨spec, hspec, s, hs, hn⟩)
  exact hfold _ (List.Subset.refl _) standard hstandard

/-- A data layout that is read from a text gives positive sizes and alignments. -/
theorem ofText_positive (s : String) : (ofText s).Positive := by
  have hall : (ofText s).All (0 < ·) := by
    refine all_ofText (all_standard ?_) ?_
    · simp only [List.mem_cons, List.not_mem_nil, or_false]
      rintro n (rfl | rfl | rfl | rfl | rfl) <;> decide
    · rintro n ⟨spec, -, t, -, hread⟩
      exact readBytes?_pos hread
  exact ⟨hall.pointerSize, hall.pointerAlign, hall.intAlign⟩

end DataLayout

/-! ### Words are exact -/

namespace Layout

def Gauge.ExactAt (g : Gauge) (t : Ty) (e : Extent) : Prop :=
  g.size t = some (.ofNat e.size) ∧ g.align t = some (.ofNat e.align)

theorem place?_exact {g : Gauge} {t : Ty} {e : Extent} (h : g.ExactAt t e) (he : e.Small)
    (packed : Bool) {f a : Nat} (hf : f < extentLimit) (ha : a < extentLimit)
    (offsets : List Int64) :
    place? g packed ⟨.ofNat f, .ofNat a, offsets⟩ t =
      some ⟨.ofNat (alignUp f (e.alignIn packed) + e.alloc), .ofNat (max a (e.alignIn packed)),
        .ofNat (alignUp f (e.alignIn packed)) :: offsets⟩ := by
  obtain ⟨hsize, halign⟩ := he
  unfold extentLimit at hsize halign hf ha
  have hfield : (e.alignIn packed) < 2 ^ 58 := by
    unfold Extent.alignIn
    split <;> omega
  have hwords : place? g packed ⟨.ofNat f, .ofNat a, offsets⟩ t =
      some ⟨alignTo (.ofNat f) (.ofNat (e.alignIn packed)) +
          alignTo (.ofNat e.size) (.ofNat e.align),
        max (.ofNat a) (.ofNat (e.alignIn packed)),
        alignTo (.ofNat f) (.ofNat (e.alignIn packed)) :: offsets⟩ := by
    cases packed <;> simp [place?, h.1, h.2, Extent.alignIn]
  rw [hwords, alignTo_ofNat (by omega) (by omega), alignTo_ofNat (by omega) (by omega),
    max_ofNat (by omega) (by omega), Int64.ofNat_add]
  rfl

theorem foldlM_place?_exact {g : Gauge} {ext : Ty → Extent} {ts : List Ty}
    (h : ∀ t ∈ ts, g.ExactAt t (ext t)) (hsmall : ∀ t ∈ ts, (ext t).Small) (packed : Bool)
    {f a : Nat} (hf : Extent.finish packed f (ts.map ext) < extentLimit) (ha : a < extentLimit)
    (offsets : List Int64) :
    ts.foldlM (place? g packed) ⟨.ofNat f, .ofNat a, offsets⟩ =
      some ⟨.ofNat (Extent.finish packed f (ts.map ext)),
        .ofNat (Extent.aligns packed a (ts.map ext)),
        ((Extent.starts packed f (ts.map ext)).map Int64.ofNat).reverse ++ offsets⟩ := by
  induction ts generalizing f a offsets with
  | nil => rfl
  | cons t ts ih =>
    have ht := hsmall t List.mem_cons_self
    have hstart := Extent.le_finish packed f ((t :: ts).map ext)
    have hmax : max a ((ext t).alignIn packed) < extentLimit := by
      refine max_lt ha ?_
      unfold Extent.alignIn
      split
      · decide
      · exact ht.2
    rw [List.foldlM_cons, place?_exact (h t List.mem_cons_self) ht packed (by omega) ha]
    simp only [List.map_cons, Extent.finish] at hf
    refine (ih (fun u hu => h u (List.mem_cons_of_mem t hu))
      (fun u hu => hsmall u (List.mem_cons_of_mem t hu)) hf hmax _).trans ?_
    simp [Extent.finish, Extent.aligns, Extent.starts]

def exactLayout (packed : Bool) (es : List Extent) : StructLayout :=
  ⟨(Extent.starts packed 0 es).map Int64.ofNat, .ofNat (Extent.ofFields packed es).size,
    .ofNat (Extent.ofFields packed es).align⟩

theorem fields_of_incomplete {defs : TypeDefs} {t : Ty} {st : StructTy}
    (h : defs.struct? t = some st) (hinc : st.incomplete = true) : st.fields = [] ∧
      st.packed = false := by
  unfold TypeDefs.struct? Ty.struct? at h
  split at h
  · cases h
    cases hinc
  · cases h
    exact ⟨rfl, rfl⟩
  · cases h

theorem layOut?_exact {g : Gauge} {ext : Ty → Extent} {st : StructTy}
    (hinc : st.incomplete = true → st.fields = [])
    (h : ∀ t ∈ st.fields, g.ExactAt t (ext t)) (hsmall : ∀ t ∈ st.fields, (ext t).Small)
    (hst : (Extent.ofFields st.packed (st.fields.map ext)).Small) :
    layOut? g st = some (exactLayout st.packed (st.fields.map ext)) := by
  unfold layOut?
  cases hi : st.incomplete with
  | true =>
    rw [hinc hi]
    rfl
  | false =>
    obtain ⟨hsize, halign⟩ := hst
    have hfinish : Extent.finish st.packed 0 (st.fields.map ext) < extentLimit :=
      lt_of_le_of_lt (le_alignUp _ _) hsize
    have hfold := foldlM_place?_exact h hsmall st.packed hfinish (a := 1) (by decide) []
    have hzero : (⟨0, 1, []⟩ : Placed) = ⟨.ofNat 0, .ofNat 1, []⟩ := rfl
    simp only [Bool.false_eq_true, if_false, hzero, hfold]
    simp only [Extent.ofFields, extentLimit] at hsize halign hfinish
    have hword : alignTo (.ofNat (Extent.finish st.packed 0 (st.fields.map ext)))
        (.ofNat (Extent.aligns st.packed 1 (st.fields.map ext))) =
          .ofNat (Extent.ofFields st.packed (st.fields.map ext)).size :=
      alignTo_ofNat (by omega) (by omega)
    change some (StructLayout.mk (_ ++ []).reverse (alignTo _ _) _) = _
    rw [hword, List.append_nil, List.reverse_reverse]
    rfl

variable {l : Layout}

theorem length?_of_lt {len : UInt64} (h : len.toNat < 2 ^ 63) :
    length? len = some (.ofNat len.toNat) := by
  have hpos : 0 ≤ len.toInt64 := by
    rw [toInt64_eq_ofNat]
    exact (Int64.ofNat_le_iff_le (a := 0) (by decide) h).mpr (Nat.zero_le _)
  rw [length?, if_pos hpos, toInt64_eq_ofNat]

theorem length?_of_ge {len : UInt64} (h : 2 ^ 63 ≤ len.toNat) : length? len = none := by
  have hneg : ¬ 0 ≤ len.toInt64 := by
    have hlt := len.toNat_lt
    have hsize : ((Int64.size : Nat) : Int) = 18446744073709551616 := rfl
    rw [toInt64_eq_ofNat, Int64.le_iff_toInt_le, Int64.toInt_ofNat', Int.bmod_def, hsize,
      Int64.toInt_zero]
    split <;> omega
  rw [length?, if_neg hneg]

/-- A number of equal parts: too many to be a word they are none, or together too large. -/
theorem length?_mul {len : UInt64} {size : Nat} (h : len.toNat * size < extentLimit) :
    ((length? len).map fun n => n * Int64.ofNat size).getD 0 = .ofNat (len.toNat * size) := by
  by_cases hlen : len.toNat < 2 ^ 63
  · rw [length?_of_lt hlen, Option.map_some, Option.getD_some, Int64.ofNat_mul]
  · rw [length?_of_ge (by omega), Option.map_none, Option.getD_none]
    have hzero : size = 0 := by
      by_contra hpos
      have hge : len.toNat * 1 ≤ len.toNat * size := Nat.mul_le_mul_left _ (by omega)
      unfold extentLimit at h
      omega
    rw [hzero, Nat.mul_zero]
    rfl

/-- The same for parts that are packed bit by bit. -/
theorem length?_bits {len bits : UInt64} (h : (len.toNat * bits.toNat + 7) / 8 < extentLimit) :
    ((length? len).map fun n => (n * bits.toInt64 + 7) / 8).getD 0 =
      .ofNat ((len.toNat * bits.toNat + 7) / 8) := by
  unfold extentLimit at h
  by_cases hlen : len.toNat < 2 ^ 63
  · rw [length?_of_lt hlen, Option.map_some, Option.getD_some, toInt64_eq_ofNat,
      Int64.ofNat_div (by omega) (by decide), Int64.ofNat_add, Int64.ofNat_mul]
    rfl
  · rw [length?_of_ge (by omega), Option.map_none, Option.getD_none]
    have hzero : bits.toNat = 0 := by
      by_contra hpos
      have hge : len.toNat * 1 ≤ len.toNat * bits.toNat := Nat.mul_le_mul_left _ (by omega)
      omega
    rw [hzero, Nat.mul_zero]
    rfl

theorem intSize_exact {bits : UInt64} (h : (bits.toNat + 7) / 8 < extentLimit) :
    intSize bits = .ofNat ((bits.toNat + 7) / 8) := by
  unfold extentLimit at h
  have hword : ((bits + 7) / 8).toNat = (bits.toNat + 7) / 8 := by
    rw [UInt64.toNat_div, UInt64.toNat_add]
    change (bits.toNat + 7) % 2 ^ 64 / 8 = _
    rw [Nat.mod_eq_of_lt (by omega)]
  rw [intSize, toInt64_eq_ofNat, hword]

theorem ofNat_of_pos {n : Int64} (h : 0 < n) : Int64.ofNat n.toNatClampNeg = n := by
  apply Int64.ofNat_toNatClampNeg
  rw [Int64.lt_iff_toInt_lt] at h
  rw [Int64.le_iff_toInt_le]
  exact le_of_lt h

theorem toNatClampNeg_pos {n : Int64} (h : 0 < n) : 0 < n.toNatClampNeg := by
  by_contra hzero
  have hword := ofNat_of_pos h
  rw [Nat.eq_zero_of_not_pos hzero] at hword
  simp [← hword] at h

theorem toNatClampNeg_lt (n : Int64) : n.toNatClampNeg < 2 ^ 63 := by
  have hlt := n.toInt_lt
  simp only [Int64.toNatClampNeg]
  omega

theorem extent_align_pos (hdata : l.data.Positive) (n : Nat) (t : Ty) :
    0 < (l.extent n t).align := by
  induction n generalizing t with
  | zero => exact one_pos
  | succ n ih =>
    rw [extent, extentBy]
    cases hst : l.defs.struct? t with
    | some st => exact Extent.le_aligns st.packed 1 _
    | none =>
      cases hexp : l.defs.expand t with
      | int bits =>
        cases hint : l.data.intAlign.get? bits with
        | some a => simpa [hint] using toNatClampNeg_pos (hdata.intAlign bits a hint)
        | none => simp [hint]
      | float k =>
        change 0 < (floatAlign k).toNatClampNeg
        cases k <;> decide
      | ptr space e => exact toNatClampNeg_pos hdata.pointerAlign
      | array len e => exact ih e
      | vector scalable len e => simp
      | _ => simp

theorem sizeBy?_exact (hdata : l.data.Positive) {g : Gauge} {below : Ty → Extent} {t : Ty}
    (hparts : ∀ u ∈ l.defs.parts t, g.ExactAt u (below u) ∧ (below u).Small)
    (ht : (l.extentBy below t).Small) :
    l.sizeBy? g t = some (.ofNat (l.extentBy below t).size) := by
  unfold sizeBy?
  unfold extentBy at ht ⊢
  cases hst : l.defs.struct? t with
  | some st =>
    rw [TypeDefs.parts_of_struct hst] at hparts
    simp only [hst] at ht
    dsimp only
    rw [layOut?_exact (fun hi => (fields_of_incomplete hst hi).1) (fun u hu => (hparts u hu).1)
      (fun u hu => (hparts u hu).2) ht]
    rfl
  | none =>
    simp only [hst] at ht
    cases hexp : l.defs.expand t with
    | int bits =>
      simp only [hexp] at ht
      exact congrArg some (intSize_exact ht.1)
    | float k => cases k <;> rfl
    | ptr space e => exact congrArg some (ofNat_of_pos hdata.pointerSize).symm
    | array len e =>
      simp only [hexp] at ht
      obtain ⟨⟨hsize, halign⟩, hsmall⟩ := hparts e (by simp [TypeDefs.parts_of_array hexp])
      have hmul := length?_mul ht.1
      unfold Extent.Small extentLimit at hsmall
      have hword := alignTo_ofNat (n := (below e).size) (a := (below e).align) (by omega) (by omega)
      rw [← Extent.alloc] at hword
      dsimp only
      cases hlen : length? len with
      | some n =>
        rw [hlen, Option.map_some, Option.getD_some] at hmul
        simp [hsize, halign, hword, ← hmul]
      | none =>
        rw [hlen, Option.map_none, Option.getD_none] at hmul
        exact congrArg some hmul
    | vector scalable len e =>
      simp only [hexp] at ht
      obtain ⟨⟨hsize, -⟩, -⟩ := hparts e (by simp [TypeDefs.parts_of_vector hexp])
      have hlimit := ht.1
      dsimp only at hlimit ⊢
      cases hlane : l.defs.expand e with
      | int bits =>
        simp only [hlane] at hlimit
        rw [← length?_bits hlimit]
        cases length? len <;> rfl
      | _ =>
        simp only [hlane] at hlimit
        rw [← length?_mul hlimit]
        cases length? len with
        | none => rfl
        | some n => simp [hsize]
    | _ => rfl

theorem alignBy?_exact (hdata : l.data.Positive) {g : Gauge} {below : Ty → Extent} {t : Ty}
    (hparts : ∀ u ∈ l.defs.parts t, g.ExactAt u (below u) ∧ (below u).Small)
    (ht : (l.extentBy below t).Small) :
    l.alignBy? g t = some (.ofNat (l.extentBy below t).align) := by
  have hsize := sizeBy?_exact hdata hparts ht
  have hlimit := ht.1
  unfold extentLimit at hlimit
  unfold alignBy?
  cases hst : l.defs.struct? t with
  | some st =>
    rw [TypeDefs.parts_of_struct hst] at hparts
    simp only [extentBy, hst] at ht ⊢
    rw [layOut?_exact (fun hi => (fields_of_incomplete hst hi).1) (fun u hu => (hparts u hu).1)
      (fun u hu => (hparts u hu).2) ht]
    rfl
  | none =>
    cases hexp : l.defs.expand t with
    | int bits =>
      simp only [extentBy, hst, hexp] at ht hlimit ⊢
      cases hint : l.data.intAlign.get? bits with
      | some a => exact congrArg some (ofNat_of_pos (hdata.intAlign bits a hint)).symm
      | none =>
        have hpow : 2 ^ Nat.clog 2 ((bits.toNat + 7) / 8) ≤ 2 ^ 58 :=
          Nat.pow_le_pow_right Nat.two_pos (Nat.clog_le_of_le_pow hlimit.le)
        rw [intSize_exact ht.1, powerOfTwoCeil?_ofNat (by omega)]
        exact congrArg some (min_ofNat (b := 16) (by omega) (by decide))
    | float k =>
      simp only [extentBy, hst, hexp]
      cases k <;> rfl
    | ptr space e =>
      simp only [extentBy, hst, hexp]
      exact congrArg some (ofNat_of_pos hdata.pointerAlign).symm
    | array len e =>
      simp only [extentBy, hst, hexp]
      exact (hparts e (by simp [TypeDefs.parts_of_array hexp])).1.2
    | vector scalable len e =>
      dsimp only
      rw [hsize]
      simp only [extentBy, hst, hexp] at hlimit ⊢
      exact powerOfTwoCeil?_ofNat (by omega)
    | _ => simp only [extentBy, hst, hexp]; rfl

/-- The words computed for a type that contains only types of moderate size are exact. -/
theorem gauge_exact (hdata : l.data.Positive) {n : Nat} {t : Ty} (h : l.Moderate n t)
    (hn : n ≤ maxTypeDepth + 1) : (l.gauge n).ExactAt t (l.exact t) := by
  induction h with
  | @intro n t here parts ih =>
    have hwithin : l.Moderate (n + 1) t := .intro here parts
    have hparts : ∀ u ∈ l.defs.parts t,
        (l.gauge n).ExactAt u (l.extent n u) ∧ (l.extent n u).Small := by
      intro u hu
      rw [← l.exact_eq (parts u hu) (by omega)]
      exact ⟨ih u hu (by omega), (parts u hu).here⟩
    rw [l.exact_eq hwithin hn] at here ⊢
    exact ⟨sizeBy?_exact hdata hparts here, alignBy?_exact hdata hparts here⟩

end Layout
end CallTargets
