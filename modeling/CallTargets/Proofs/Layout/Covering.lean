import CallTargets.Proofs.Layout.Placement
import Mathlib.Logic.Relation

/-!
# The innermost field around an offset

Every offset that is not negative leads to a field, also one in padding, in an empty field, or
behind the end: arrays are entered at the offset modulo the size of an element, structs at the last
field that starts there or before. The field is found that is entered last. It is not found only if
there is nothing to enter: no struct with fields stands below the arrays at the top.
-/
namespace CallTargets

open IR

/-! ### Structs below arrays -/

namespace IR.TypeDefs

variable {defs : TypeDefs} {t e : Ty} {len : UInt64} {st : StructTy}

def Element (defs : TypeDefs) (t e : Ty) : Prop :=
  ∃ len, defs.expand t = .array len e

def HasFields (defs : TypeDefs) (t : Ty) : Prop :=
  ∃ st, defs.struct? t = some st ∧ st.incomplete = false ∧ st.fields ≠ []

/-- A type, its leading arrays removed, is a struct with fields. -/
def FieldsBelow (defs : TypeDefs) (t : Ty) : Prop :=
  ∃ u, Relation.ReflTransGen defs.Element t u ∧ defs.HasFields u

theorem fieldsBelow_iff : defs.FieldsBelow t ↔
    defs.HasFields t ∨ ∃ e, defs.Element t e ∧ defs.FieldsBelow e := by
  constructor
  · rintro ⟨u, hpath, hu⟩
    rcases hpath.cases_head with rfl | ⟨e, he, hrest⟩
    · exact .inl hu
    · exact .inr ⟨e, he, u, hrest, hu⟩
  · rintro (h | ⟨e, he, u, hrest, hu⟩)
    · exact ⟨t, .refl, h⟩
    · exact ⟨u, .head he hrest, hu⟩

theorem not_element_of_struct (h : defs.struct? t = some st) (e : Ty) : ¬ defs.Element t e := by
  rintro ⟨len, hexp⟩
  simp [struct?_of_array hexp] at h

theorem fieldsBelow_of_not_element (h : ∀ e, ¬ defs.Element t e) :
    defs.FieldsBelow t ↔ defs.HasFields t := by
  rw [fieldsBelow_iff]
  simp [h]

theorem fieldsBelow_of_array (h : defs.expand t = .array len e) :
    defs.FieldsBelow t ↔ defs.FieldsBelow e := by
  have hstruct : ¬ defs.HasFields t := by simp [HasFields, struct?_of_array h]
  have helem : ∀ e', defs.Element t e' ↔ e' = e := by
    intro e'
    simp [Element, h, eq_comm]
  rw [fieldsBelow_iff]
  simp [hstruct, helem]

end IR.TypeDefs

/-! ### The way to an offset -/

namespace Layout

variable {l : Layout} {S : Set StructTy}

/-- From an offset in an array to the offset in its element. Elements without a size leave it as it
is. -/
inductive EntersElement (l : Layout) : Ty × Nat → Ty × Nat → Prop
  | intro {t e : Ty} {len : UInt64} {o : Nat} (array : l.defs.expand t = .array len e) :
      l.EntersElement (t, o) (e, o % (l.exact e).alloc)

/-- From an offset in an array or a struct to the offset in the element or field around it. -/
inductive Enters (l : Layout) : Ty × Nat → Ty × Nat → Prop
  | element {p q : Ty × Nat} (enters : l.EntersElement p q) : l.Enters p q
  | field {t field : Ty} {st : StructTy} {o i start : Nat} (struct : l.defs.struct? t = some st)
      (found : st.fields[i]? = some field) (covered : l.CoveredBy st o i start) :
      l.Enters (t, o) (field, o - start)

/-- A field covers the offset that a place leads to, and there is nothing more to enter in it. -/
def CoversInside (l : Layout) (p : Ty × Nat) (r : FieldRef) : Prop :=
  ∃ u o start field, Relation.ReflTransGen l.Enters p (u, o) ∧ l.defs.struct? u = some r.owner ∧
    l.CoveredBy r.owner o r.index start ∧ r.owner.fields[r.index]? = some field ∧
    ¬ l.defs.FieldsBelow field

/-- A field is the innermost one at an offset in an object. Below the leading arrays, the offset
counts from the start of the object that it is in. -/
def Innermost (l : Layout) (t : Ty) (o : Nat) (r : FieldRef) : Prop :=
  ∃ base o', Relation.ReflTransGen l.EntersElement (t, o) (base, o') ∧ l.defs.HasFields base ∧
    l.CoversInside (base, o' % (l.exact base).alloc) r

theorem CoversInside.head {p q : Ty × Nat} {r : FieldRef} (hpq : l.Enters p q)
    (h : l.CoversInside q r) : l.CoversInside p r := by
  obtain ⟨u, o, start, field, hpath, hrest⟩ := h
  exact ⟨u, o, start, field, .head hpq hpath, hrest⟩

/-- Every offset is covered by a field, if there is one. -/
theorem exists_covered (l : Layout) {st : StructTy} (hne : st.fields ≠ []) (o : Nat) :
    ∃ i start field, l.CoveredBy st o i start ∧ st.fields[i]? = some field := by
  classical
  have hlen : (l.fieldStarts st).length = st.fields.length := by
    rw [fieldStarts, Extent.length_starts, List.length_map]
  let begun (i : Nat) : Prop := ∃ s, (l.fieldStarts st)[i]? = some s ∧ s ≤ o
  have hfirst : begun 0 := by
    obtain ⟨t, ts, hts⟩ := List.exists_cons_of_ne_nil hne
    refine ⟨0, ?_, Nat.zero_le o⟩
    simp [fieldStarts, hts, Extent.starts, alignUp_of_dvd]
  -- The last field that has begun; the one behind it has not.
  obtain ⟨start, hstart, hle⟩ : begun (Nat.findGreatest begun st.fields.length) :=
    Nat.findGreatest_spec (Nat.zero_le _) hfirst
  have hi := (List.getElem?_eq_some_iff.mp hstart).1
  rw [hlen] at hi
  refine ⟨_, start, _, ⟨hstart, hle, fun s hs => ?_⟩, List.getElem?_eq_getElem hi⟩
  by_contra hnot
  exact Nat.findGreatest_is_greatest (Nat.lt_succ_self _) hi ⟨s, hs, Nat.le_of_not_lt hnot⟩

/-! ### Words -/

theorem descend_stays (l : Layout) (S : Set StructTy) {t : Ty} (hfields : ¬ l.defs.HasFields t)
    (helement : ∀ e, ¬ l.defs.Element t e) (n : Nat) (found : Option FieldRef) (o : Int64) :
    Agrees l S (l.descend n found t o) (some found) := by
  cases n with
  | zero => exact .pure found
  | succ n =>
    rw [descend]
    cases hst : l.defs.struct? t with
    | some st =>
      have hstop : (st.incomplete || st.fields.isEmpty) = true := by
        by_contra hgo
        simp only [Bool.or_eq_true, List.isEmpty_iff, not_or, Bool.not_eq_true] at hgo
        exact hfields ⟨st, hst, hgo⟩
      simp only [hstop, if_true]
      exact .pure found
    | none =>
      dsimp only
      split
      · next len e hexp => exact absurd ⟨len, hexp⟩ (helement e)
      · exact .pure found

/-- In a struct the descent enters the field around the offset. -/
theorem descend_field (h : l.Exactly S) {k : Nat} (hk : k ≤ maxTypeDepth + 1) {t : Ty}
    (ht : l.Tame S k t) {st : StructTy} (hst : l.defs.struct? t = some st)
    (hinc : st.incomplete = false) {o i start : Nat} {field : Ty} (ho : o < 2 ^ 63)
    (hcovered : l.CoveredBy st o i start) (hfield : st.fields[i]? = some field) {n : Nat}
    {answer : Option FieldRef}
    (hanswer : Agrees l S (l.descend n (some ⟨st, i⟩) field (.ofNat (o - start))) (some answer))
    (found : Option FieldRef) :
    Agrees l S (l.descend (n + 1) found t (.ofNat o)) (some answer) := by
  obtain ⟨k, rfl⟩ := ht.exists_succ
  have hlast := lastStart?_covered (by omega) ht hst ho hcovered
  have hne : st.fields.isEmpty = false :=
    List.isEmpty_eq_false_iff.mpr (List.ne_nil_of_mem (List.mem_of_getElem? hfield))
  simp only [descend, hst, hinc, hne, Bool.or_self, Bool.false_eq_true, if_false]
  refine (fieldOffsets_exact h (by omega) ht hst).then ?_
  simp only [hlast, hfield]
  rwa [← Int64.ofNat_sub _ _ hcovered.le]

theorem descend_element (h : l.Exactly S) {k : Nat} (hk : k ≤ maxTypeDepth + 1) {t e : Ty}
    {len : UInt64} (hexp : l.defs.expand t = .array len e) (he : l.Tame S k e) {o : Nat}
    (ho : o < 2 ^ 63) {n : Nat} {found answer : Option FieldRef}
    (hanswer : Agrees l S (l.descend n found e (.ofNat (o % (l.exact e).alloc))) (some answer)) :
    Agrees l S (l.descend (n + 1) found t (.ofNat o)) (some answer) := by
  obtain ⟨k, rfl⟩ := he.exists_succ
  have hsmall := he.here.1.alloc_lt
  simp only [descend, TypeDefs.struct?_of_array hexp, hexp]
  refine (alloc_exact h hk he).then ?_
  rwa [wrapped_eq_mod ho (by omega)]

/-- The descent stays at the field found so far if there is nothing to enter. Otherwise it finds the
innermost field, which belongs to a struct that was entered. -/
theorem descend_covers (h : l.Exactly S) {k : Nat} (hk : k ≤ maxTypeDepth + 1) {t : Ty}
    (ht : l.Tame S k t) {n : Nat} (hn : k ≤ n + 1) {o : Nat} (ho : o < 2 ^ 63)
    (found : Option FieldRef) :
    (¬ l.defs.FieldsBelow t ∧ Agrees l S (l.descend n found t (.ofNat o)) (some found)) ∨
    (l.defs.FieldsBelow t ∧ ∃ r, Agrees l S (l.descend n found t (.ofNat o)) (some (some r)) ∧
      r.owner ∈ S ∧ l.CoversInside (t, o) r) := by
  induction k generalizing t n o found with
  | zero => cases ht
  | succ k ih =>
    by_cases hfields : l.defs.HasFields t
    · refine .inr ⟨TypeDefs.fieldsBelow_iff.mpr (.inl hfields), ?_⟩
      obtain ⟨st, hst, hinc, hne⟩ := hfields
      obtain ⟨i, start, field, hcovered, hfield⟩ := l.exists_covered hne o
      have hin := ht.part (TypeDefs.mem_parts_of_field hst hfield)
      obtain ⟨k, rfl⟩ := hin.exists_succ
      obtain ⟨n, rfl⟩ : ∃ m, n = m + 1 := ⟨n - 1, by omega⟩
      rcases ih (by omega) hin (n := n) (by omega) (o := o - start) (by omega) (some ⟨st, i⟩) with
        ⟨hleaf, hrest⟩ | ⟨-, r, hrest, howner, hinside⟩
      · exact ⟨⟨st, i⟩, descend_field h hk ht hst hinc ho hcovered hfield hrest found,
          ht.here.2 st hst, t, o, start, field, .refl, hst, hcovered, hfield, hleaf⟩
      · exact ⟨r, descend_field h hk ht hst hinc ho hcovered hfield hrest found, howner,
          hinside.head (.field hst hfield hcovered)⟩
    by_cases helement : ∃ e, l.defs.Element t e
    · obtain ⟨e, len, hexp⟩ := helement
      have hin := ht.part (TypeDefs.mem_parts_of_array hexp)
      obtain ⟨k, rfl⟩ := hin.exists_succ
      obtain ⟨n, rfl⟩ : ∃ m, n = m + 1 := ⟨n - 1, by omega⟩
      have hle := Nat.mod_le o (l.exact e).alloc
      rw [TypeDefs.fieldsBelow_of_array hexp]
      rcases ih (by omega) hin (n := n) (by omega) (o := o % (l.exact e).alloc) (by omega)
        found with ⟨hleaf, hrest⟩ | ⟨hbelow, r, hrest, howner, hinside⟩
      · exact .inl ⟨hleaf, descend_element h (by omega) hexp hin ho hrest⟩
      · exact .inr ⟨hbelow, r, descend_element h (by omega) hexp hin ho hrest, howner,
          hinside.head (.element (.intro hexp))⟩
    · have hno := not_exists.mp helement
      refine .inl ⟨?_, l.descend_stays S hfields hno n found _⟩
      rwa [TypeDefs.fieldsBelow_of_not_element hno]

/-- Peeling removes all leading arrays and reduces the offset at each of them. -/
theorem peelArrays_enters (h : l.Exactly S) {k : Nat} (hk : k ≤ maxTypeDepth + 1) {t : Ty}
    (ht : l.Tame S k t) {n : Nat} (hn : k ≤ n + 1) {o : Nat} (ho : o < 2 ^ 63) :
    ∃ base o', Relation.ReflTransGen l.EntersElement (t, o) (base, o') ∧ o' < 2 ^ 63 ∧
      l.Tame S k base ∧ (l.defs.FieldsBelow t ↔ l.defs.HasFields base) ∧
      Agrees l S (l.peelArrays n t (.ofNat o)) (some (base, .ofNat o')) := by
  induction k generalizing t n o with
  | zero => cases ht
  | succ k ih =>
    by_cases helement : ∃ e, l.defs.Element t e
    · obtain ⟨e, len, hexp⟩ := helement
      have hin := ht.part (TypeDefs.mem_parts_of_array hexp)
      obtain ⟨k, rfl⟩ := hin.exists_succ
      obtain ⟨n, rfl⟩ : ∃ m, n = m + 1 := ⟨n - 1, by omega⟩
      have hsmall := hin.here.1.alloc_lt
      have hle := Nat.mod_le o (l.exact e).alloc
      obtain ⟨base, o', hpath, ho', hbase, hiff, hpeel⟩ :=
        ih (by omega) hin (n := n) (by omega) (o := o % (l.exact e).alloc) (by omega)
      refine ⟨base, o', .head (.intro hexp) hpath, ho', hbase.mono (Nat.le_succ _), ?_, ?_⟩
      · rw [TypeDefs.fieldsBelow_of_array hexp, hiff]
      · simp only [peelArrays, hexp]
        refine (alloc_exact h (by omega) hin).then ?_
        rwa [wrapped_eq_mod ho (by omega)]
    · have hno := not_exists.mp helement
      refine ⟨t, o, .refl, ho, ht, TypeDefs.fieldsBelow_of_not_element hno, ?_⟩
      cases n with
      | zero => exact .pure _
      | succ n =>
        rw [peelArrays]
        split
        · next len e hexp => exact absurd ⟨len, hexp⟩ (hno e)
        · exact .pure _

/-- What is found at an offset of a tame type is its innermost field. -/
theorem fieldAt_covers (h : l.Exactly S) {t : Ty} (ht : l.Tame S (maxTypeDepth + 1) t) {o : Nat}
    (ho : o < 2 ^ 63) :
    ∃ answer, Agrees l S (l.fieldAt t (.ofNat o)) (some answer) ∧
      (answer.isSome ↔ l.defs.FieldsBelow t) ∧ ∀ r ∈ answer, r.owner ∈ S ∧ l.Innermost t o r := by
  obtain ⟨base, o', hpath, ho', hbase, hiff, hpeel⟩ :=
    peelArrays_enters h (le_refl _) ht (le_refl _) ho
  have hneg : ¬ Int64.ofNat o < 0 := (toNat_ofNat ho).1
  have hsmall := hbase.here.1.alloc_lt
  have hle := Nat.mod_le o' (l.exact base).alloc
  have hstart {answer : Option FieldRef} {st : StructTy} (hst : l.defs.struct? base = some st)
      (hanswer : Agrees l S (l.descend maxTypeDepth none base (.ofNat (o' % (l.exact base).alloc)))
        (some answer)) : Agrees l S (l.fieldAt t (.ofNat o)) (some answer) := by
    unfold fieldAt
    rw [if_neg hneg]
    refine hpeel.then ?_
    simp only [hst]
    refine (alloc_exact h (le_refl _) hbase).then ?_
    rwa [wrapped_behind_end ho' (by omega)]
  cases hst : l.defs.struct? base with
  | none =>
    have hno : ¬ l.defs.HasFields base := by simp [TypeDefs.HasFields, hst]
    refine ⟨none, ?_, by simpa [hiff] using hno, by simp⟩
    unfold fieldAt
    rw [if_neg hneg]
    refine hpeel.then ?_
    simp only [hst]
    exact .pure none
  | some st =>
    have hbelow := TypeDefs.fieldsBelow_of_not_element (TypeDefs.not_element_of_struct hst)
    rcases descend_covers h (le_refl _) hbase (n := maxTypeDepth) (le_refl _)
      (o := o' % (l.exact base).alloc) (by omega) none with
      ⟨hnone, hdescend⟩ | ⟨hsome, r, hdescend, howner, hinside⟩
    · exact ⟨none, hstart hst hdescend, by simpa [hiff, hbelow] using hnone, by simp⟩
    · refine ⟨some r, hstart hst hdescend, by simpa [hiff, hbelow] using hsome, ?_⟩
      intro r' hr'
      cases hr'
      exact ⟨howner, base, o', hpath, hbelow.mp hsome, hinside⟩

end Layout

/-- At an offset that is not negative a field is found if and only if there is a struct with fields
below the leading arrays of a type of moderate size. It belongs to a struct inside the type and is
the innermost one at the offset. -/
theorem fieldAt_innermost {l : Layout} {text : String} (hl : l.data = .ofText text) {t : Ty}
    (hid : l.Identified t) (ht : l.Moderate (maxTypeDepth + 1) t) {offset : Int64}
    (hoffset : 0 ≤ offset) :
    ∃ answer, Layout.Agrees l (l.structsOf t) (l.fieldAt t offset) (some answer) ∧
      (answer.isSome ↔ l.defs.FieldsBelow t) ∧
      ∀ r ∈ answer, r.owner ∈ l.structsOf t ∧ l.Innermost t offset.toNatClampNeg r := by
  obtain ⟨h, htame⟩ := Layout.exactly_structsOf hl hid ht
  have hfield := Layout.fieldAt_covers h htame (Layout.toNatClampNeg_lt offset)
  rwa [Int64.ofNat_toNatClampNeg offset hoffset] at hfield

theorem Nested.inner_mem : inner ∈ layout.structsOf (.named "outer") := by
  have hlist : layout.structsOf (.named "outer") = {st | st ∈ [outer, middle, inner]} := rfl
  rw [hlist]
  simp

/-- Seven bytes into the second of two outer structs, in the first element of the row. The field is
the hook and not the empty one that starts at the same place. -/
theorem fieldAt_innermost_nested :
    (∃ cache, Nested.layout.fieldAt (.named "outer") 43 [] = some (some ⟨Nested.inner, 2⟩, cache)) ∧
      Nested.layout.Innermost (.named "outer") 43 ⟨Nested.inner, 2⟩ := by
  obtain ⟨answer, hagrees, -, hinnermost⟩ := fieldAt_innermost (l := Nested.layout) rfl
    Nested.identified Nested.moderate (show (0 : Int64) ≤ 43 by decide)
  obtain ⟨cache, hrun, -⟩ := hagrees [] (Layout.sound_nil _ _)
  have hvalue : (Nested.layout.fieldAt (.named "outer") 43 []).map
      (fun x => x.1.map fun r => (r.owner.id, r.index)) = some (some (.named "inner", 2)) := by
    decide +kernel
  rw [hrun, Option.map_some, Option.some_inj] at hvalue
  obtain ⟨⟨owner, index⟩, rfl, hr⟩ := Option.map_eq_some_iff.mp hvalue
  obtain ⟨howner, hcovers⟩ := hinnermost _ rfl
  obtain rfl : owner = Nested.inner :=
    Nested.identified owner howner Nested.inner Nested.inner_mem (congrArg Prod.fst hr)
  obtain rfl : index = 2 := congrArg Prod.snd hr
  exact ⟨⟨cache, hrun⟩, hcovers⟩

end CallTargets
