/-!
# Finite maps

A finite map as a list of keys with their values, in the order in which the keys were first given
a value.
-/
namespace CallTargets

abbrev Assoc (κ α : Type) := List (κ × α)

namespace Assoc

variable {κ α : Type} [DecidableEq κ]

def get? (k : κ) : Assoc κ α → Option α
  | [] => none
  | (k', a) :: m => if k' = k then some a else get? k m

/-- Replaces the value of a key by one computed from it; a new key is added at the end. -/
def alter (k : κ) (f : Option α → α) : Assoc κ α → Assoc κ α
  | [] => [(k, f none)]
  | (k', a) :: m => if k' = k then (k', f (some a)) :: m else (k', a) :: alter k f m

def put (k : κ) (a : α) (m : Assoc κ α) : Assoc κ α :=
  m.alter k fun _ => a

def keys (m : Assoc κ α) : List κ :=
  m.map Prod.fst

@[simp] theorem get?_alter_self (k : κ) (f : Option α → α) (m : Assoc κ α) :
    (m.alter k f).get? k = some (f (m.get? k)) := by
  induction m with
  | nil => simp [alter, get?]
  | cons p m ih =>
    obtain ⟨k', a⟩ := p
    by_cases h : k' = k <;> simp [alter, get?, h, ih]

@[simp] theorem get?_alter_of_ne {k k' : κ} (h : k ≠ k') (f : Option α → α) (m : Assoc κ α) :
    (m.alter k f).get? k' = m.get? k' := by
  induction m with
  | nil => simp [alter, get?, h]
  | cons p m ih =>
    obtain ⟨j, a⟩ := p
    by_cases hj : j = k
    · subst hj
      simp [alter, get?, h]
    · simp [alter, get?, hj, ih]

@[simp] theorem get?_put_self (k : κ) (a : α) (m : Assoc κ α) : (m.put k a).get? k = some a := by
  simp [put]

@[simp] theorem get?_put_of_ne {k k' : κ} (h : k ≠ k') (a : α) (m : Assoc κ α) :
    (m.put k a).get? k' = m.get? k' := by
  simp [put, h]

theorem get?_alter (k k' : κ) (f : Option α → α) (m : Assoc κ α) :
    (m.alter k f).get? k' = if k = k' then some (f (m.get? k)) else m.get? k' := by
  by_cases h : k = k'
  · subst h
    simp
  · simp [h]

theorem get?_put (k k' : κ) (a : α) (m : Assoc κ α) :
    (m.put k a).get? k' = if k = k' then some a else m.get? k' := by
  simp [put, get?_alter]

/-- Giving a key the value it has changes nothing. -/
theorem put_of_get? {k : κ} {a : α} {m : Assoc κ α} (h : m.get? k = some a) : m.put k a = m := by
  induction m with
  | nil => cases h
  | cons p m ih =>
    obtain ⟨k', b⟩ := p
    by_cases hk : k' = k
    · simp only [get?, hk, if_true, Option.some.injEq] at h
      simp [put, alter, hk, h]
    · simp only [get?, hk, if_false] at h
      have := ih h
      simp_all [put, alter]

end Assoc
end CallTargets
