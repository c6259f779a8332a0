import CallTargets.ByteString
import CallTargets.Sorting
import Mathlib.Tactic

/-!
# Sorted lists and lists without repeats

Sorting permutes a list, and leaves no element in front of one that comes before it. So where the
order tells the elements apart, the sorted form of a list is determined by how often each element
occurs, and without neighbours alike it is increasing and determined by its members. Byte strings
are ordered in this way. Erasing repeats keeps the first occurrence of each element.
-/
namespace CallTargets

variable {α : Type}

theorem insertBy_perm (lt : α → α → Bool) (a : α) (l : List α) :
    (insertBy lt a l).Perm (a :: l) := by
  induction l with
  | nil => exact .refl _
  | cons b l ih =>
    rw [insertBy]
    split
    · exact .refl _
    · exact (ih.cons b).trans (.swap a b l)

theorem sortBy_perm (lt : α → α → Bool) (l : List α) : (sortBy lt l).Perm l := by
  have hfold (sorted : List α) :
      (l.foldl (fun sorted a => insertBy lt a sorted) sorted).Perm (l ++ sorted) := by
    induction l generalizing sorted with
    | nil => exact .refl _
    | cons a l ih =>
      exact (ih _).trans (((insertBy_perm lt a sorted).append_left l).trans List.perm_middle)
  have hall := hfold []
  rw [List.append_nil] at hall
  exact hall

theorem dropRepeats_of_nodup [DecidableEq α] {l : List α} (h : l.Nodup) : dropRepeats l = l := by
  fun_induction dropRepeats l with
  | case1 b rest ih => simp at h
  | case2 a b rest _ ih => rw [ih (List.nodup_cons.mp h).2]
  | case3 l _ => rfl

theorem dropRepeats_sublist [DecidableEq α] (l : List α) : (dropRepeats l).Sublist l := by
  fun_induction dropRepeats l with
  | case1 b rest ih => exact ih.cons b
  | case2 a b rest _ ih => exact ih.cons_cons a
  | case3 l _ => exact .refl l

theorem eraseDups_concat [BEq α] [LawfulBEq α] (as : List α) (a : α) [Decidable (a ∈ as)] :
    (as ++ [a]).eraseDups = if a ∈ as then as.eraseDups else as.eraseDups ++ [a] := by
  rw [List.eraseDups_append]
  by_cases h : a ∈ as <;> simp [List.removeAll, h, List.eraseDups_cons]

theorem nodup_eraseDups [BEq α] [LawfulBEq α] (as : List α) : as.eraseDups.Nodup := by
  cases as with
  | nil => simp
  | cons a as =>
    rw [List.eraseDups_cons, List.nodup_cons]
    exact ⟨by simp, nodup_eraseDups _⟩
termination_by as.length
decreasing_by
  simp only [List.length_cons]
  exact Nat.lt_succ_of_le (List.length_filter_le _ _)

/-- A strict order by which lists are sorted. -/
structure Precedes (lt : α → α → Bool) : Prop where
  asymm : ∀ {a b}, lt a b = true → lt b a = false
  trans : ∀ {a b c}, lt a b = true → lt b c = true → lt a c = true

namespace Precedes

variable {lt : α → α → Bool}

theorem insertBy_sorted (h : Precedes lt) (a : α) {l : List α}
    (hl : l.Pairwise fun b c => lt c b = false) :
    (insertBy lt a l).Pairwise fun b c => lt c b = false := by
  induction l with
  | nil => simp [insertBy]
  | cons b l ih =>
    obtain ⟨hb, hrest⟩ := List.pairwise_cons.mp hl
    rw [insertBy]
    split
    · next hab =>
      refine List.pairwise_cons.mpr ⟨?_, hl⟩
      intro c hc
      rcases List.mem_cons.mp hc with rfl | hc
      · exact h.asymm hab
      · -- What came before `a` would come before `b` as well.
        by_contra hca
        rw [Bool.not_eq_false] at hca
        have hcb := h.trans hca hab
        rw [hb c hc] at hcb
        cases hcb
    · next hab =>
      refine List.pairwise_cons.mpr ⟨?_, ih hrest⟩
      intro c hc
      rcases mem_insertBy.mp hc with rfl | hc
      · simpa using hab
      · exact hb c hc

theorem sortBy_sorted (h : Precedes lt) (l : List α) :
    (sortBy lt l).Pairwise fun b c => lt c b = false := by
  have hfold (sorted : List α) (hs : sorted.Pairwise fun b c => lt c b = false) :
      (l.foldl (fun sorted a => insertBy lt a sorted) sorted).Pairwise
        fun b c => lt c b = false := by
    induction l generalizing sorted with
    | nil => exact hs
    | cons a l ih => exact ih _ (h.insertBy_sorted a hs)
  exact hfold [] .nil

/-- Where the order tells the elements apart, a sorted list is determined by what is in it. -/
theorem sortBy_eq_iff (h : Precedes lt) {l l' : List α}
    (htotal : ∀ a ∈ l, ∀ b ∈ l', lt a b = false → lt b a = false → a = b) :
    sortBy lt l = sortBy lt l' ↔ l.Perm l' := by
  constructor
  · intro heq
    exact (sortBy_perm lt l).symm.trans (heq ▸ sortBy_perm lt l')
  · intro hperm
    refine List.Perm.eq_of_pairwise ?_ (h.sortBy_sorted l) (h.sortBy_sorted l')
      ((sortBy_perm lt l).trans (hperm.trans (sortBy_perm lt l').symm))
    intro a b ha hb hba hab
    exact htotal a (mem_sortBy.mp ha) b (mem_sortBy.mp hb) hab hba

theorem irrefl (h : Precedes lt) (a : α) : lt a a = false := by
  by_contra hself
  rw [Bool.not_eq_false] at hself
  simp [h.asymm hself] at hself

/-- Where the order tells the elements apart, neighbours alike are the only repeats. -/
theorem dropRepeats_increasing [DecidableEq α] {l : List α}
    (hl : l.Pairwise fun b c => lt c b = false)
    (htotal : ∀ a ∈ l, ∀ b ∈ l, lt a b = false → lt b a = false → a = b) :
    (dropRepeats l).Pairwise fun b c => lt b c = true := by
  fun_induction dropRepeats l with
  | case1 b rest ih =>
    apply ih (List.pairwise_cons.mp hl).2
    intro a ha c hc
    exact htotal a (.tail _ ha) c (.tail _ hc)
  | case2 a b rest hne ih =>
    rw [List.pairwise_cons] at hl ⊢
    constructor
    · intro c hc
      rw [mem_dropRepeats] at hc
      by_contra hac
      rw [Bool.not_eq_true] at hac
      obtain rfl : a = c := htotal a (.head _) c (.tail _ hc) hac (hl.1 c hc)
      -- Then `a` is behind `b`, which is not before it.
      have hab : lt a b = false := by
        rcases List.mem_cons.mp hc with rfl | hmem
        · exact hac
        · exact (List.pairwise_cons.mp hl.2).1 a hmem
      exact hne (htotal a (.head _) b (by simp) hab (hl.1 b (by simp)))
    · apply ih hl.2
      intro c hc d hd
      exact htotal c (.tail _ hc) d (.tail _ hd)
  | case3 l hshort =>
    cases l with
    | nil => simp
    | cons a rest =>
      cases rest with
      | nil => simp
      | cons b rest => exact absurd rfl (hshort a b rest)

/-- An increasing list is determined by its members. -/
theorem eq_of_increasing (h : Precedes lt) {l l' : List α}
    (hl : l.Pairwise fun a b => lt a b = true) (hl' : l'.Pairwise fun a b => lt a b = true)
    (hmem : ∀ a, a ∈ l ↔ a ∈ l') : l = l' := by
  have hnodup {l : List α} (hl : l.Pairwise fun a b => lt a b = true) : l.Nodup := by
    apply hl.imp
    rintro a b hab rfl
    simp [h.irrefl a] at hab
  apply List.Perm.eq_of_pairwise _ hl hl'
  · exact (List.perm_ext_iff_of_nodup (hnodup hl) (hnodup hl')).mpr hmem
  · intro a b _ _ hab hba
    simp [h.asymm hab] at hba

end Precedes

namespace ByteString

theorem bytesBefore_asymm {a b : List UInt8} (h : bytesBefore a b = true) :
    bytesBefore b a = false := by
  induction a generalizing b with
  | nil =>
    cases b with
    | nil => cases h
    | cons y b => rfl
  | cons x a ih =>
    cases b with
    | nil => cases h
    | cons y b =>
      simp only [bytesBefore, Bool.or_eq_true, Bool.and_eq_true, decide_eq_true_eq, beq_iff_eq,
        Bool.or_eq_false_iff, decide_eq_false_iff_not] at h ⊢
      rcases h with hlt | ⟨rfl, h⟩
      · refine ⟨UInt8.lt_asymm hlt, ?_⟩
        have hne : (y == x) = false := by simpa using (UInt8.ne_of_lt hlt).symm
        simp [hne]
      · simp [UInt8.lt_irrefl, ih h]

theorem bytesBefore_trans {a b c : List UInt8} (h : bytesBefore a b = true)
    (h' : bytesBefore b c = true) : bytesBefore a c = true := by
  induction a generalizing b c with
  | nil =>
    cases c with
    | nil => cases b <;> cases h'
    | cons z c => rfl
  | cons x a ih =>
    cases b with
    | nil => cases h
    | cons y b =>
      cases c with
      | nil => cases h'
      | cons z c =>
        simp only [bytesBefore, Bool.or_eq_true, Bool.and_eq_true, decide_eq_true_eq,
          beq_iff_eq] at h h' ⊢
        rcases h with hxy | ⟨rfl, h⟩ <;> rcases h' with hyz | ⟨rfl, h'⟩
        · exact .inl (UInt8.lt_trans hxy hyz)
        · exact .inl hxy
        · exact .inl hyz
        · exact .inr ⟨rfl, ih h h'⟩

theorem eq_of_not_bytesBefore {a b : List UInt8} (h : bytesBefore a b = false)
    (h' : bytesBefore b a = false) : a = b := by
  induction a generalizing b with
  | nil =>
    cases b with
    | nil => rfl
    | cons y b => cases h
  | cons x a ih =>
    cases b with
    | nil => cases h'
    | cons y b =>
      simp only [bytesBefore, Bool.or_eq_false_iff, decide_eq_false_iff_not] at h h'
      have hxy : x = y := UInt8.le_antisymm (UInt8.not_lt.mp h'.1) (UInt8.not_lt.mp h.1)
      subst hxy
      simp only [BEq.rfl, Bool.true_and] at h h'
      rw [ih h.2 h'.2]

theorem before_precedes : Precedes before :=
  ⟨bytesBefore_asymm, bytesBefore_trans⟩

theorem eq_of_not_before {a b : ByteString} (h : a.before b = false) (h' : b.before a = false) :
    a = b := by
  cases a
  cases b
  exact congrArg ByteString.mk (eq_of_not_bytesBefore h h')

end ByteString
end CallTargets
