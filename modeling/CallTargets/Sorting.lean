/-!
# Sorting and dropping repetitions

Insertion sort keeps equal elements in their order, so the result is determined by the list alone.
-/
namespace CallTargets

section
variable {α : Type}

/-- Inserts behind every element that does not come after it. -/
def insertBy (lt : α → α → Bool) (a : α) : List α → List α
  | [] => [a]
  | b :: bs => if lt a b then a :: b :: bs else b :: insertBy lt a bs

/-- A list sorted by a strict order, equal elements in their order. -/
def sortBy (lt : α → α → Bool) (l : List α) : List α :=
  l.foldl (fun sorted a => insertBy lt a sorted) []

/-- A list without elements equal to their predecessor. -/
def dropRepeats [DecidableEq α] : List α → List α
  | a :: b :: rest => if a = b then dropRepeats (b :: rest) else a :: dropRepeats (b :: rest)
  | l => l

theorem mem_insertBy {lt : α → α → Bool} {a b : α} {l : List α} :
    a ∈ insertBy lt b l ↔ a = b ∨ a ∈ l := by
  induction l with
  | nil => simp [insertBy]
  | cons c l ih =>
    rw [insertBy]
    split
    · simp
    · rw [List.mem_cons, ih, List.mem_cons]
      constructor
      · rintro (h | h | h) <;> simp [h]
      · rintro (h | h | h) <;> simp [h]

theorem mem_foldl_insertBy {lt : α → α → Bool} {a : α} (l sorted : List α) :
    a ∈ l.foldl (fun sorted b => insertBy lt b sorted) sorted ↔ a ∈ sorted ∨ a ∈ l := by
  induction l generalizing sorted with
  | nil => simp
  | cons b l ih =>
    rw [List.foldl_cons, ih, mem_insertBy, List.mem_cons]
    constructor
    · rintro ((h | h) | h) <;> simp [h]
    · rintro (h | h | h) <;> simp [h]

@[simp] theorem mem_sortBy {lt : α → α → Bool} {a : α} {l : List α} :
    a ∈ sortBy lt l ↔ a ∈ l := by
  simp [sortBy, mem_foldl_insertBy]

@[simp] theorem mem_dropRepeats [DecidableEq α] {a : α} {l : List α} :
    a ∈ dropRepeats l ↔ a ∈ l := by
  fun_induction dropRepeats l with
  | case1 b rest ih => simp [ih]
  | case2 b c rest _ ih => simp [ih]
  | case3 l _ => rfl

end

end CallTargets
