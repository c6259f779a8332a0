import CallTargets.Proofs.Layout.Exact

/-!
# Fields on paths

A path of indices leads through structs and arrays to a member of a type. It has an exact offset,
and an innermost field: of the last struct that it passes, the field it goes through. The main
statement is that the address computed with the indices of a path designates the innermost field on
it, if the path ends at a member of positive size that is neither a struct nor an array.
-/
namespace CallTargets

open IR

/-! ### Starts of fields -/

namespace Extent

variable {packed : Bool} {f : Nat} {es : List Extent}

theorem le_of_mem_starts {s : Nat} (h : s ∈ starts packed f es) : f ≤ s := by
  induction es generalizing f with
  | nil => cases h
  | cons e es ih =>
    have hup := le_alignUp f (e.alignIn packed)
    rcases List.mem_cons.mp h with rfl | h
    · exact hup
    · exact (hup.trans (Nat.le_add_right _ _)).trans (ih h)

theorem start_add_alloc_le {i s : Nat} {e : Extent} (hs : (starts packed f es)[i]? = some s)
    (he : es[i]? = some e) : s + e.alloc ≤ finish packed f es := by
  induction es generalizing f i with
  | nil => cases he
  | cons e' es ih =>
    cases i with
    | zero =>
      cases hs
      cases he
      exact le_finish packed _ es
    | succ i => exact ih hs he

theorem start_add_alloc_le_start {i j s s' : Nat} {e : Extent} (hij : i < j)
    (hs : (starts packed f es)[i]? = some s) (he : es[i]? = some e)
    (hs' : (starts packed f es)[j]? = some s') : s + e.alloc ≤ s' := by
  induction es generalizing f i j with
  | nil => cases he
  | cons e' es ih =>
    obtain ⟨j, rfl⟩ : ∃ k, j = k + 1 := ⟨j - 1, by omega⟩
    cases i with
    | zero =>
      cases hs
      cases he
      exact le_of_mem_starts (List.mem_of_getElem? hs')
    | succ i => exact ih (Nat.lt_of_succ_lt_succ hij) hs he hs'

theorem start_le_start {i j s s' : Nat} (hij : i ≤ j) (hs : (starts packed f es)[i]? = some s)
    (hs' : (starts packed f es)[j]? = some s') : s ≤ s' := by
  rcases Nat.lt_or_eq_of_le hij with hlt | rfl
  · obtain ⟨e, he⟩ : ∃ e, es[i]? = some e := by
      have hlen := (List.getElem?_eq_some_iff.mp hs).1
      rw [length_starts] at hlen
      exact ⟨_, List.getElem?_eq_getElem hlen⟩
    exact (Nat.le_add_right _ _).trans (start_add_alloc_le_start hlt hs he hs')
  · rw [hs] at hs'
    exact le_of_eq (Option.some.inj hs')

end Extent

/-! ### Halving -/

/-- Halving finds where a predicate becomes true for good. -/
theorem bisect_eq {p : Nat → Bool} {k : Nat} (hbefore : ∀ m < k, p m = false)
    (hafter : ∀ m, k ≤ m → p m = true) {n i j : Nat} (hi : i ≤ k) (hj : k ≤ j) (hn : j - i ≤ n) :
    bisect p n i j = k := by
  induction n generalizing i j with
  | zero =>
    rw [bisect]
    omega
  | succ n ih =>
    rw [bisect]
    by_cases hij : i < j
    · rw [if_pos hij]
      by_cases hk : k ≤ (i + j) / 2
      · simp only [hafter _ hk, if_true]
        exact ih hi hk (by omega)
      · simp only [hbefore _ (Nat.lt_of_not_le hk), Bool.false_eq_true, if_false]
        exact ih (Nat.lt_of_not_le hk) hj (by omega)
    · rw [if_neg hij]
      omega

theorem lastStart?_eq {offsets : List Int64} {offset start : Int64} {i : Nat}
    (hi : offsets[i]? = some start)
    (hbefore : ∀ k ≤ i, ∀ o, offsets[k]? = some o → ¬ offset < o)
    (hafter : ∀ k, i < k → ∀ o, offsets[k]? = some o → offset < o) :
    lastStart? offsets offset = some (i, start) := by
  have hlen : i < offsets.length := (List.getElem?_eq_some_iff.mp hi).1
  have hbisect : bisect (fun k => (offsets[k]?.map fun o => decide (offset < o)).getD true)
      offsets.length 0 offsets.length = i + 1 := by
    refine bisect_eq ?_ ?_ (Nat.zero_le _) hlen (by omega)
    · intro k hk
      obtain ⟨o, ho⟩ : ∃ o, offsets[k]? = some o :=
        ⟨_, List.getElem?_eq_getElem (by omega)⟩
      simp only [ho, Option.map_some, Option.getD_some, decide_eq_false_iff_not]
      exact hbefore k (by omega) o ho
    · intro k hk
      cases ho : offsets[k]? with
      | none => rfl
      | some o => simpa using hafter k (by omega) o ho
  unfold lastStart?
  simp only [hbisect, hi, Option.map_some]

/-! ### Members -/

namespace IR.TypeDefs

variable {defs : TypeDefs}

/-- The innermost field on a path; `found` is the one reached before it. -/
def innermost? (defs : TypeDefs) : Option FieldRef → Ty → List Nat → Option FieldRef
  | found, _, [] => found
  | found, t, i :: is =>
    match defs.struct? t with
    | some st =>
      match st.fields[i]? with
      | some field => innermost? defs (some ⟨st, i⟩) field is
      | none => found
    | none =>
      match defs.expand t with
      | .array _ e => innermost? defs found e is
      | _ => found

/-- A path enters a type through a field of a struct or an element of an array. -/
theorem member?_cons {t u : Ty} {i : Nat} {is : List Nat}
    (h : defs.member? t (i :: is) = some u) :
    (∃ st field, defs.struct? t = some st ∧ st.incomplete = false ∧ st.fields[i]? = some field ∧
      defs.member? field is = some u) ∨
    ∃ len e, defs.struct? t = none ∧ defs.expand t = .array len e ∧ i < len.toNat ∧
      defs.member? e is = some u := by
  rw [member?] at h
  split at h
  · next id packed fields heq =>
    obtain ⟨field, hfield, hmem⟩ := Option.bind_eq_some_iff.mp h
    have hst : defs.struct? t = some ⟨id, packed, false, fields⟩ := by
      simp [struct?, Ty.struct?, heq]
    exact .inl ⟨_, field, hst, rfl, hfield, hmem⟩
  · next len e heq =>
    split at h
    · next hi => exact .inr ⟨len, e, struct?_of_array heq, heq, hi, h⟩
    · cases h
  · cases h

/-- A type that is neither a struct nor an array. -/
def IsLeaf (defs : TypeDefs) (t : Ty) : Prop :=
  defs.struct? t = none ∧ ∀ len e, defs.expand t ≠ .array len e

end IR.TypeDefs

namespace Layout

def fieldStarts (l : Layout) (st : StructTy) : List Nat :=
  Extent.starts st.packed 0 (st.fields.map l.exact)

def offsetIn (l : Layout) : Ty → List Nat → Nat
  | _, [] => 0
  | t, i :: is =>
    match l.defs.struct? t with
    | some st =>
      match st.fields[i]? with
      | some field => ((l.fieldStarts st)[i]?).getD 0 + l.offsetIn field is
      | none => 0
    | none =>
      match l.defs.expand t with
      | .array _ e => i * (l.exact e).alloc + l.offsetIn e is
      | _ => 0

/-- All types inside a type are of moderate size, and its structs belong to a set. -/
abbrev Tame (l : Layout) (S : Set StructTy) (n : Nat) (t : Ty) : Prop :=
  l.defs.Within (fun u => (l.exact u).Small ∧ ∀ st ∈ l.defs.struct? u, st ∈ S) n t

variable {l : Layout} {S : Set StructTy}

theorem exact_of_struct {P : Ty → Prop} {n : Nat} {t : Ty} (h : l.defs.Within P (n + 1) t)
    (hn : n ≤ maxTypeDepth) {st : StructTy} (hst : l.defs.struct? t = some st) :
    l.exact t = .ofFields st.packed (st.fields.map l.exact) := by
  rw [l.exact_eq h (by omega), extent, extentBy, hst]
  dsimp only
  congr 1
  apply List.map_congr_left
  intro u hu
  rw [← TypeDefs.parts_of_struct hst] at hu
  exact (l.exact_eq (h.part hu) (by omega)).symm

theorem exact_of_array {P : Ty → Prop} {n : Nat} {t : Ty} (h : l.defs.Within P (n + 1) t)
    (hn : n ≤ maxTypeDepth) {len : UInt64} {e : Ty} (hexp : l.defs.expand t = .array len e) :
    l.exact t = ⟨len.toNat * (l.exact e).alloc, (l.exact e).align⟩ := by
  have he : e ∈ l.defs.parts t := by simp [TypeDefs.parts_of_array hexp]
  rw [l.exact_eq h (by omega), extent, extentBy, TypeDefs.struct?_of_array hexp,
    l.exact_eq (h.part he) (by omega)]
  simp only [hexp]

/-- No room is left free between the end of an array and the next object. -/
theorem alloc_of_array (hdata : l.data.Positive) {P : Ty → Prop} {n : Nat} {t : Ty}
    (h : l.defs.Within P (n + 1) t) (hn : n ≤ maxTypeDepth) {len : UInt64} {e : Ty}
    (hexp : l.defs.expand t = .array len e) :
    (l.exact t).alloc = len.toNat * (l.exact e).alloc := by
  have hdvd : (l.exact e).align ∣ (l.exact e).alloc := dvd_alignUp (extent_align_pos hdata _ e)
  rw [exact_of_array h hn hexp]
  exact alignUp_of_dvd (hdvd.mul_left _)

theorem start_of_field (l : Layout) {st : StructTy} {i : Nat} {field : Ty}
    (h : st.fields[i]? = some field) : ∃ s, (l.fieldStarts st)[i]? = some s := by
  have hlen : i < (l.fieldStarts st).length := by
    rw [fieldStarts, Extent.length_starts, List.length_map]
    exact (List.getElem?_eq_some_iff.mp h).1
  exact ⟨_, List.getElem?_eq_getElem hlen⟩

theorem offsetIn_add_size_le {P : Ty → Prop} {n : Nat} {t u : Ty} (h : l.defs.Within P n t)
    (hn : n ≤ maxTypeDepth + 1) {path : List Nat} (hmem : l.defs.member? t path = some u) :
    l.offsetIn t path + (l.exact u).size ≤ (l.exact t).size := by
  induction path generalizing n t with
  | nil =>
    cases hmem
    simp [offsetIn]
  | cons i is ih =>
    obtain ⟨n, rfl⟩ := h.exists_succ
    rw [offsetIn]
    rcases TypeDefs.member?_cons hmem with ⟨st, field, hst, -, hfield, hmem⟩ |
      ⟨len, e, hst, hexp, hi, hmem⟩
    · obtain ⟨s, hs⟩ := l.start_of_field hfield
      have hin := TypeDefs.mem_parts_of_field hst hfield
      have hinner := ih (h.part hin) (by omega) hmem
      have hend := Extent.start_add_alloc_le (e := l.exact field) hs (by simp [hfield])
      have hsize := (l.exact field).size_le_alloc
      have hup := le_alignUp (Extent.finish st.packed 0 (st.fields.map l.exact))
        (Extent.aligns st.packed 1 (st.fields.map l.exact))
      rw [exact_of_struct h (by omega) hst]
      simp only [hst, hfield, hs, Option.getD_some, Extent.ofFields]
      omega
    · have hin := TypeDefs.mem_parts_of_array hexp
      have hinner := ih (h.part hin) (by omega) hmem
      have hsize := (l.exact e).size_le_alloc
      have hnext : (i + 1) * (l.exact e).alloc ≤ len.toNat * (l.exact e).alloc :=
        Nat.mul_le_mul_right _ hi
      rw [exact_of_array h (by omega) hexp]
      simp only [hst, hexp]
      rw [Nat.add_one_mul] at hnext
      omega

/-! ### Queries -/

/-- A query that has an answer is followed by what is asked next. -/
theorem Agrees.then {α β : Type} {q : Query α} {a : α} {f : α → Query β} {answer : Option β}
    (hq : Agrees l S q (some a)) (hf : Agrees l S (f a) answer) : Agrees l S (q >>= f) answer :=
  hq.bind (g := fun _ => answer) fun b hb => by
    cases hb
    exact hf

/-- The types of a set of structs are measured exactly. -/
structure Exactly (l : Layout) (S : Set StructTy) : Prop where
  apart : l.Apart S
  positive : l.data.Positive

theorem measure_exact (h : l.Exactly S) {n : Nat} (hn : n ≤ maxTypeDepth + 1) {t : Ty}
    (ht : l.Tame S n t) :
    Agrees l S ((l.measure n).size t) (some (.ofNat (l.exact t).size)) ∧
      Agrees l S ((l.measure n).align t) (some (.ofNat (l.exact t).align)) := by
  have hagrees := measure_agrees h.apart hn (ht.imp fun _ hu => hu.2)
  obtain ⟨hsize, halign⟩ := gauge_exact h.positive (ht.imp fun _ hu => hu.1) hn
  exact ⟨hsize ▸ hagrees.size, halign ▸ hagrees.align⟩

theorem alloc_exact (h : l.Exactly S) {n : Nat} (hn : n ≤ maxTypeDepth + 1) {t : Ty}
    (ht : l.Tame S n t) : Agrees l S (l.alloc t) (some (.ofNat (l.exact t).alloc)) := by
  obtain ⟨hsize, halign⟩ := measure_exact h (le_refl _) (ht.mono hn)
  obtain ⟨hlt, hlt'⟩ := ht.here.1
  unfold extentLimit at hlt hlt'
  have hword : alignTo (.ofNat (l.exact t).size) (.ofNat (l.exact t).align) =
      .ofNat (l.exact t).alloc := alignTo_ofNat (by omega) (by omega)
  rw [← hword]
  exact hsize.then (halign.then (.pure _))

theorem fieldOffsets_exact (h : l.Exactly S) {n : Nat} (hn : n ≤ maxTypeDepth) {t : Ty}
    (ht : l.Tame S (n + 1) t) {st : StructTy} (hst : l.defs.struct? t = some st) :
    Agrees l S (l.fieldOffsets st) (some ((l.fieldStarts st).map Int64.ofNat)) := by
  have hfields : ∀ u ∈ st.fields, l.Tame S maxTypeDepth u := by
    intro u hu
    rw [← TypeDefs.parts_of_struct hst] at hu
    exact (ht.part hu).mono hn
  have hsmall : (Extent.ofFields st.packed (st.fields.map l.exact)).Small := by
    rw [← exact_of_struct ht hn hst]
    exact ht.here.1
  have hlayout : layOut? (l.gauge maxTypeDepth) st =
      some (exactLayout st.packed (st.fields.map l.exact)) :=
    layOut?_exact (fun hi => (fields_of_incomplete hst hi).1)
      (fun u hu => gauge_exact h.positive ((hfields u hu).imp fun _ hv => hv.1) (Nat.le_succ _))
      (fun u hu => (hfields u hu).here.1) hsmall
  have hstruct := structWith_agrees h.apart (le_refl _) (ht.here.2 st hst)
    (fun u hu => (hfields u hu).imp fun _ _ => trivial)
    (fun u hu => measure_agrees h.apart (Nat.le_succ _) ((hfields u hu).imp fun _ hv => hv.2))
  rw [hlayout] at hstruct
  exact hstruct.then (.pure _)

/-! ### Offsets of addresses -/

theorem indexValue_ofNat {i : Nat} (h : i < 2 ^ 63) (t : Ty) :
    indexValue (.const (.int t i)) = Int64.ofNat i := by
  have hfits : Text.fitsInt64 i := by
    simp only [Text.fitsInt64, Bool.and_eq_true, decide_eq_true_eq]
    exact ⟨by have := Int64.toInt_minValue; omega, by have := Int64.toInt_maxValue; omega⟩
  rw [indexValue, if_pos hfits, Int64.ofInt_eq_ofNat]

theorem toNat_ofNat {i : Nat} (h : i < 2 ^ 63) :
    ¬ Int64.ofNat i < 0 ∧ (Int64.ofNat i).toInt.toNat = i := by
  have htoInt := Int64.toInt_ofNat_of_lt h
  refine ⟨?_, by rw [htoInt, Int.toNat_natCast]⟩
  rw [Int64.lt_iff_toInt_lt, htoInt, Int64.toInt_zero]
  omega

theorem innerOffset_exact (h : l.Exactly S) {n : Nat} (hn : n ≤ maxTypeDepth + 1) {t u : Ty}
    (ht : l.Tame S n t) {path : List Nat} (hmem : l.defs.member? t path = some u)
    (hpath : ∀ i ∈ path, i < 2 ^ 63) {indices : List Value}
    (hindices : indices.map indexValue = path.map Int64.ofNat) (offset : Nat) :
    Agrees l S (l.innerOffset t indices (.ofNat offset))
      (some (some (.ofNat (offset + l.offsetIn t path)))) := by
  induction path generalizing n t indices offset with
  | nil =>
    obtain rfl := List.map_eq_nil_iff.mp hindices
    exact .pure _
  | cons i is ih =>
    obtain ⟨v, vs, rfl, hv, hvs⟩ := List.map_eq_cons_iff.mp hindices
    obtain ⟨n, rfl⟩ := ht.exists_succ
    obtain ⟨hneg, hindex⟩ := toNat_ofNat (hpath i List.mem_cons_self)
    have hpath' : ∀ j ∈ is, j < 2 ^ 63 := fun j hj => hpath j (List.mem_cons_of_mem i hj)
    rw [innerOffset, offsetIn]
    rcases TypeDefs.member?_cons hmem with ⟨st, field, hst, -, hfield, hmem⟩ |
      ⟨len, e, hst, hexp, -, hmem⟩
    · obtain ⟨s, hs⟩ := l.start_of_field hfield
      have hin := TypeDefs.mem_parts_of_field hst hfield
      have hword : (((l.fieldStarts st).map Int64.ofNat)[i]?).getD 0 = .ofNat s := by simp [hs]
      simp only [hst, hv, if_neg hneg, hindex, hfield, hs, Option.getD_some]
      refine (fieldOffsets_exact h (by omega) ht hst).then ?_
      rw [hword, ← Int64.ofNat_add, ← Nat.add_assoc]
      exact ih (by omega) (ht.part hin) hmem hpath' hvs _
    · have hin := TypeDefs.mem_parts_of_array hexp
      simp only [hst, hexp, hv]
      refine (alloc_exact h (by omega) (ht.part hin)).then ?_
      rw [← Int64.ofNat_mul, ← Int64.ofNat_add, ← Nat.add_assoc]
      exact ih (by omega) (ht.part hin) hmem hpath' hvs _

/-! ### Fields at offsets -/

/-- Wrapping at a size is the remainder; at size zero, which is no modulus, nothing is wrapped. -/
theorem wrapped_eq_mod {o size : Nat} (ho : o < 2 ^ 63) (hsize : size < 2 ^ 63) :
    wrapped (.ofNat o) (.ofNat size) = .ofNat (o % size) := by
  have hpos : 0 < Int64.ofNat size ↔ 0 < size := Int64.ofNat_lt_iff_lt (a := 0) (by decide) hsize
  unfold wrapped
  by_cases h : 0 < size
  · rw [if_pos (hpos.mpr h), ← Int64.ofNat_mod ho hsize]
  · rw [if_neg (hpos.not.mpr h), Nat.eq_zero_of_not_pos h, Nat.mod_zero]

theorem wrapped_ofNat {i size inner : Nat} (hinner : inner < size) (hsize : size < 2 ^ 63)
    (hall : i * size + inner < 2 ^ 63) :
    wrapped (.ofNat (i * size + inner)) (.ofNat size) = .ofNat inner := by
  rw [wrapped_eq_mod hall hsize, Nat.add_comm, Nat.add_mul_mod_self_right, Nat.mod_eq_of_lt hinner]

/-- A field covers an offset: it starts there or before, and the next field starts behind. -/
structure CoveredBy (l : Layout) (st : StructTy) (o i start : Nat) : Prop where
  start_eq : (l.fieldStarts st)[i]? = some start
  le : start ≤ o
  next : ∀ s, (l.fieldStarts st)[i + 1]? = some s → o < s

theorem start_lt {n : Nat} (hn : n ≤ maxTypeDepth) {t : Ty} (ht : l.Tame S (n + 1) t)
    {st : StructTy} (hst : l.defs.struct? t = some st) {i s : Nat}
    (hs : (l.fieldStarts st)[i]? = some s) : s < 2 ^ 58 := by
  obtain ⟨hlimit, -⟩ := ht.here.1
  rw [exact_of_struct ht hn hst, extentLimit] at hlimit
  have hfinish := lt_of_le_of_lt (le_alignUp _ _) hlimit
  obtain ⟨e, he⟩ : ∃ e, (st.fields.map l.exact)[i]? = some e := by
    have hlen := (List.getElem?_eq_some_iff.mp hs).1
    rw [fieldStarts, Extent.length_starts] at hlen
    exact ⟨_, List.getElem?_eq_getElem hlen⟩
  have hend := Extent.start_add_alloc_le hs he
  omega

/-- The field that covers an offset is the last one that starts there or before. -/
theorem lastStart?_covered {n : Nat} (hn : n ≤ maxTypeDepth) {t : Ty} (ht : l.Tame S (n + 1) t)
    {st : StructTy} (hst : l.defs.struct? t = some st) {o i s : Nat} (ho : o < 2 ^ 63)
    (h : l.CoveredBy st o i s) :
    lastStart? ((l.fieldStarts st).map Int64.ofNat) (.ofNat o) = some (i, .ofNat s) := by
  have hword {k : Nat} {w : Int64} (hw : ((l.fieldStarts st).map Int64.ofNat)[k]? = some w) :
      ∃ s', (l.fieldStarts st)[k]? = some s' ∧ Int64.ofNat s' = w := by
    simpa using hw
  apply lastStart?_eq
  · simp [h.start_eq]
  · intro k hk w hw
    obtain ⟨s', hs', rfl⟩ := hword hw
    have hle := Extent.start_le_start hk hs' h.start_eq
    have hbound := start_lt hn ht hst hs'
    rw [Int64.ofNat_lt_iff_lt ho (by omega)]
    have := h.le
    omega
  · intro k hk w hw
    obtain ⟨s', hs', rfl⟩ := hword hw
    obtain ⟨s'', hs''⟩ : ∃ s'', (l.fieldStarts st)[i + 1]? = some s'' := by
      have hlen := (List.getElem?_eq_some_iff.mp hs').1
      exact ⟨_, List.getElem?_eq_getElem (by omega)⟩
    have hle := Extent.start_le_start hk hs'' hs'
    have hbound := start_lt hn ht hst hs'
    have hnext := h.next s'' hs''
    rw [Int64.ofNat_lt_iff_lt ho (by omega)]
    omega

/-- At the offset that a path leads to, the last field that starts is the one on the path. -/
theorem lastStart?_exact {n : Nat} (hn : n ≤ maxTypeDepth) {t : Ty} (ht : l.Tame S (n + 1) t)
    {st : StructTy} (hst : l.defs.struct? t = some st) {i s inner : Nat} {field : Ty}
    (hfield : st.fields[i]? = some field) (hs : (l.fieldStarts st)[i]? = some s)
    (hinner : inner < (l.exact field).size) :
    lastStart? ((l.fieldStarts st).map Int64.ofNat) (.ofNat (s + inner)) =
      some (i, .ofNat s) := by
  have hext : (st.fields.map l.exact)[i]? = some (l.exact field) := by simp [hfield]
  have halloc := (l.exact field).size_le_alloc
  have hsmall := (ht.part (TypeDefs.mem_parts_of_field hst hfield)).here.1.alloc_lt
  have hstart := start_lt hn ht hst hs
  refine lastStart?_covered hn ht hst (by omega) ⟨hs, Nat.le_add_right _ _, fun s' hs' => ?_⟩
  have hle := Extent.start_add_alloc_le_start (Nat.lt_succ_self i) hs hext hs'
  omega

/-- The descent follows the path to its innermost field. -/
theorem descend_exact (h : l.Exactly S) {n : Nat} (hn : n ≤ maxTypeDepth + 1) {t u : Ty}
    (ht : l.Tame S n t) {path : List Nat} (hmem : l.defs.member? t path = some u)
    (hleaf : l.defs.IsLeaf u) (hsize : 0 < (l.exact u).size) {m : Nat} (hm : path.length ≤ m)
    (found : Option FieldRef) :
    Agrees l S (l.descend m found t (.ofNat (l.offsetIn t path)))
      (some (l.defs.innermost? found t path)) := by
  induction path generalizing n t m found with
  | nil =>
    cases hmem
    cases m with
    | zero => exact .pure found
    | succ m =>
      rw [descend, hleaf.1]
      dsimp only
      split
      · next len e heq => exact absurd heq (hleaf.2 len e)
      · exact .pure found
  | cons i is ih =>
    obtain ⟨m, rfl⟩ : ∃ k, m = k + 1 := ⟨m - 1, by simp at hm; omega⟩
    obtain ⟨n, rfl⟩ := ht.exists_succ
    have hlen : is.length ≤ m := by simpa using hm
    have hwhole := offsetIn_add_size_le ht hn hmem
    obtain ⟨hlimit, -⟩ := ht.here.1
    rw [extentLimit] at hlimit
    rw [offsetIn] at hwhole ⊢
    rw [descend, TypeDefs.innermost?]
    rcases TypeDefs.member?_cons hmem with ⟨st, field, hst, hinc, hfield, hmem⟩ |
      ⟨len, e, hst, hexp, -, hmem⟩
    · obtain ⟨s, hs⟩ := l.start_of_field hfield
      have hin := TypeDefs.mem_parts_of_field hst hfield
      have hinner := offsetIn_add_size_le (ht.part hin) (by omega) hmem
      have hlt : l.offsetIn field is < (l.exact field).size := by omega
      have hlast := lastStart?_exact (by omega) ht hst hfield hs hlt
      have hne : st.fields.isEmpty = false := by
        rw [List.isEmpty_eq_false_iff_exists_mem]
        exact ⟨field, List.mem_of_getElem? hfield⟩
      simp only [hst, hfield, hs, Option.getD_some, hinc, hne, Bool.or_self, Bool.false_eq_true,
        if_false]
      refine (fieldOffsets_exact h (by omega) ht hst).then ?_
      simp only [hlast, hfield]
      have hsub : Int64.ofNat (s + l.offsetIn field is) - Int64.ofNat s =
          .ofNat (l.offsetIn field is) := by
        rw [← Int64.ofNat_sub _ _ (Nat.le_add_right _ _), Nat.add_sub_cancel_left]
      rw [hsub]
      exact ih (by omega) (ht.part hin) hmem hlen _
    · have hin := TypeDefs.mem_parts_of_array hexp
      have hinner := offsetIn_add_size_le (ht.part hin) (by omega) hmem
      have halloc := (l.exact e).size_le_alloc
      have hsmall := (ht.part hin).here.1.alloc_lt
      simp only [hst, hexp] at hwhole ⊢
      refine (alloc_exact h (by omega) (ht.part hin)).then ?_
      rw [wrapped_ofNat (by omega) (by omega) (by omega)]
      exact ih (by omega) (ht.part hin) hmem hlen _

/-- Peeling leading arrays follows the path until it meets no array. Whole objects in front of the
one that the path is in are forgotten with the first array. -/
theorem peelArrays_exact (h : l.Exactly S) {n : Nat} (hn : n ≤ maxTypeDepth + 1) {t u : Ty}
    (ht : l.Tame S n t) {path : List Nat} (hmem : l.defs.member? t path = some u)
    (hleaf : l.defs.IsLeaf u) (hsize : 0 < (l.exact u).size) {m : Nat} (hm : path.length ≤ m)
    {k : Nat} (hfits : k * (l.exact t).alloc + l.offsetIn t path < 2 ^ 63) :
    ∃ n' ≤ n, ∃ t' path' k', l.Tame S n' t' ∧ l.defs.member? t' path' = some u ∧
      path'.length ≤ path.length ∧ (∀ len e, l.defs.expand t' ≠ .array len e) ∧
      l.defs.innermost? none t path = l.defs.innermost? none t' path' ∧
      k' * (l.exact t').alloc + l.offsetIn t' path' < 2 ^ 63 ∧
      Agrees l S (l.peelArrays m t (.ofNat (k * (l.exact t).alloc + l.offsetIn t path)))
        (some (t', .ofNat (k' * (l.exact t').alloc + l.offsetIn t' path'))) := by
  induction path generalizing n t m k with
  | nil =>
    cases hmem
    refine ⟨n, le_refl n, _, [], k, ht, rfl, le_refl _, hleaf.2, rfl, hfits, ?_⟩
    cases m with
    | zero => exact .pure _
    | succ m =>
      rw [peelArrays]
      split
      · next len e heq => exact absurd heq (hleaf.2 len e)
      · exact .pure _
  | cons i is ih =>
    obtain ⟨m, rfl⟩ : ∃ k, m = k + 1 := ⟨m - 1, by simp at hm; omega⟩
    obtain ⟨n, rfl⟩ := ht.exists_succ
    rcases TypeDefs.member?_cons hmem with ⟨st, field, hst, -, -, -⟩ |
      ⟨len, e, hst, hexp, -, hmem'⟩
    · have hno : ∀ len e, l.defs.expand t ≠ .array len e := by
        intro len e hexp
        simp [TypeDefs.struct?_of_array hexp] at hst
      refine ⟨n + 1, le_refl _, t, i :: is, k, ht, hmem, le_refl _, hno, rfl, hfits, ?_⟩
      rw [peelArrays]
      split
      · next len e heq => exact absurd heq (hno len e)
      · exact .pure _
    · have hin := TypeDefs.mem_parts_of_array hexp
      have hinner := offsetIn_add_size_le (ht.part hin) (by omega) hmem'
      have halloc := (l.exact e).size_le_alloc
      have hsmall := (ht.part hin).here.1.alloc_lt
      -- In elements of the array, both the objects in front and the index are whole numbers.
      have hsplit : k * (l.exact t).alloc + l.offsetIn t (i :: is) =
          (k * len.toNat + i) * (l.exact e).alloc + l.offsetIn e is := by
        rw [alloc_of_array h.positive ht (by omega) hexp, offsetIn]
        simp only [hst, hexp]
        ring
      obtain ⟨n', hn', t', path', k', ht', hmem'', hle, hno, hsame, hfits', hpeel⟩ :=
        ih (by omega) (ht.part hin) hmem' (m := m) (k := 0) (by simpa using hm) (by omega)
      refine ⟨n', by omega, t', path', k', ht', hmem'', by simp; omega, hno, ?_, hfits', ?_⟩
      · rw [← hsame]
        simp only [TypeDefs.innermost?, hst, hexp]
      · rw [hsplit] at hfits ⊢
        simp only [peelArrays, hexp]
        refine (alloc_exact h (by omega) (ht.part hin)).then ?_
        rw [wrapped_ofNat (by omega) (by omega) hfits]
        rwa [Nat.zero_mul, Nat.zero_add] at hpeel

theorem length_lt_of_member? {P : Ty → Prop} {n : Nat} {t u : Ty} (h : l.defs.Within P n t)
    {path : List Nat} (hmem : l.defs.member? t path = some u) : path.length < n := by
  induction path generalizing n t with
  | nil =>
    cases h
    exact Nat.succ_pos _
  | cons i is ih =>
    obtain ⟨n, rfl⟩ := h.exists_succ
    rw [List.length_cons]
    rcases TypeDefs.member?_cons hmem with ⟨st, field, hst, -, hfield, hmem⟩ |
      ⟨len, e, -, hexp, -, hmem⟩
    · have hin := TypeDefs.mem_parts_of_field hst hfield
      exact Nat.succ_lt_succ (ih (h.part hin) hmem)
    · have hin := TypeDefs.mem_parts_of_array hexp
      exact Nat.succ_lt_succ (ih (h.part hin) hmem)

/-- An offset that is wrapped only behind the end of an object is wrapped anyway. -/
theorem wrapped_behind_end {o size : Nat} (ho : o < 2 ^ 63) (hsize : size < 2 ^ 63) :
    (if 0 < Int64.ofNat size ∧ Int64.ofNat size ≤ .ofNat o then Int64.ofNat o % .ofNat size
      else .ofNat o) = .ofNat (o % size) := by
  rw [← wrapped_eq_mod ho hsize, wrapped]
  by_cases hle : size ≤ o
  · simp [Int64.ofNat_le_iff_le hsize ho, hle]
  · have hmod : Int64.ofNat o % .ofNat size = .ofNat o := by
      rw [← Int64.ofNat_mod ho hsize, Nat.mod_eq_of_lt (Nat.lt_of_not_le hle)]
    simp [Int64.ofNat_le_iff_le hsize ho, hle, hmod]

/-- An offset behind some whole objects counts from the start of the next one. -/
theorem wrapped_behind {k size inner : Nat} (hinner : inner < size) (hsize : size < 2 ^ 63)
    (hall : k * size + inner < 2 ^ 63) :
    (if 0 < Int64.ofNat size ∧ Int64.ofNat size ≤ .ofNat (k * size + inner) then
      Int64.ofNat (k * size + inner) % .ofNat size else .ofNat (k * size + inner)) =
      .ofNat inner := by
  rw [wrapped_behind_end hall hsize, Nat.add_comm, Nat.add_mul_mod_self_right,
    Nat.mod_eq_of_lt hinner]

/-- The field at the offset that a path leads to is the innermost one on the path, also behind some
whole objects. -/
theorem fieldAt_exact (h : l.Exactly S) {t u : Ty} (ht : l.Tame S (maxTypeDepth + 1) t)
    {path : List Nat} (hmem : l.defs.member? t path = some u) (hleaf : l.defs.IsLeaf u)
    (hsize : 0 < (l.exact u).size) {k : Nat}
    (hfits : k * (l.exact t).alloc + l.offsetIn t path < 2 ^ 63) :
    Agrees l S (l.fieldAt t (.ofNat (k * (l.exact t).alloc + l.offsetIn t path)))
      (some (l.defs.innermost? none t path)) := by
  have hlen : path.length ≤ maxTypeDepth := Nat.le_of_lt_succ (length_lt_of_member? ht hmem)
  obtain ⟨n', hn', t', path', k', ht', hmem', hle, hno, hsame, hfits', hpeel⟩ :=
    peelArrays_exact h (le_refl _) ht hmem hleaf hsize hlen hfits
  have hneg : ¬ Int64.ofNat (k * (l.exact t).alloc + l.offsetIn t path) < 0 := (toNat_ofNat hfits).1
  unfold fieldAt
  rw [if_neg hneg, hsame]
  refine hpeel.then ?_
  dsimp only
  cases hst : l.defs.struct? t' with
  | none =>
    -- Neither struct nor array: the path is at its end.
    cases path' with
    | nil => exact .pure none
    | cons i is =>
      rcases TypeDefs.member?_cons hmem' with ⟨st, field, hst', -, -, -⟩ | ⟨len, e, -, hexp, -, -⟩
      · rw [hst] at hst'
        cases hst'
      · exact absurd hexp (hno len e)
  | some st =>
    have hwhole' := offsetIn_add_size_le ht' (by omega) hmem'
    have halloc := (l.exact t').size_le_alloc
    have hsmall := ht'.here.1.alloc_lt
    refine (alloc_exact h (by omega) ht').then ?_
    rw [wrapped_behind (by omega) (by omega) hfits']
    exact descend_exact h (by omega) ht' hmem' hleaf hsize (by omega) none

/-! ### Addresses -/

/-- An address computed by the indices of a path, from an object or from one that stands some whole
objects behind it, designates the innermost field on the path. The object must not itself be a
constant address computation. -/
theorem resolve_exact (h : l.Exactly S) {fr : Frame} {addr : Value} {g : Gep}
    (hgep : fr.gep? (fr.strip addr) = some g)
    (hsrc : ∀ c, fr.strip g.src = .const c → c.gep? = none) {u : Ty}
    (ht : l.Tame S (maxTypeDepth + 1) g.elem) {path : List Nat}
    (hmem : l.defs.member? g.elem path = some u) (hleaf : l.defs.IsLeaf u)
    (hsize : 0 < (l.exact u).size) (hpath : ∀ i ∈ path, i < 2 ^ 63) {k : Nat}
    (hfits : k * (l.exact g.elem).alloc + l.offsetIn g.elem path < 2 ^ 63)
    (hindices : g.indices.map indexValue = (k :: path).map Int64.ofNat) :
    Agrees l S (l.resolve fr addr) (some (l.defs.innermost? none g.elem path)) := by
  obtain ⟨v, vs, hvs, hv, hrest⟩ := List.map_eq_cons_iff.mp hindices
  have hindexed : Agrees l S (l.indexedOffset g.elem g.indices)
      (some (some (.ofNat (k * (l.exact g.elem).alloc + l.offsetIn g.elem path)))) := by
    rw [hvs, indexedOffset, hv]
    refine (alloc_exact h (le_refl _) ht).then ?_
    rw [← Int64.ofNat_mul]
    exact innerOffset_exact h (le_refl _) ht hmem hpath hrest _
  have hfold : Agrees l S (l.gepOffset fr (fr.strip addr))
      (some (some (g.elem, .ofNat (k * (l.exact g.elem).alloc + l.offsetIn g.elem path)))) := by
    rw [gepOffset, hgep]
    dsimp only
    rw [foldGeps]
    refine hindexed.then ?_
    simp only [Int64.zero_add]
    split
    · exact .pure _
    · split
      · next c hc =>
        rw [hsrc c hc]
        exact .pure _
      · exact .pure _
  rw [resolve]
  simp only [hgep]
  exact hfold.then (fieldAt_exact h ht hmem hleaf hsize hfits)

end Layout
end CallTargets
