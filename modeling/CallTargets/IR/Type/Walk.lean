import CallTargets.IR.Type.Equality

/-!
# Walks through types

A type is made of types, and a name among them stands for a definition that may use the name again.
So the types of a module form a graph with cycles. A walk goes through it with a stack. It takes a
type off the stack and passes it over if it has seen it before; otherwise it opens the type and puts
on the stack what the type leads to. There are finitely many types, each is opened once, and only
opening a type adds to the stack. So every walk comes to its end.
-/
namespace CallTargets.IR

/-- The types a type is made of, as they are written. -/
def Ty.components : Ty → List Ty
  | .ptr _ e | .array _ e | .vector _ _ e => [e]
  | .func r ps _ => r :: ps
  | .struct _ _ fields => fields
  | _ => []

mutual

/-- The types written inside a type, itself included. -/
def Ty.within : Ty → List Ty
  | .ptr space e => .ptr space e :: e.within
  | .array len e => .array len e :: e.within
  | .vector scalable len e => .vector scalable len e :: e.within
  | .func r ps variadic => .func r ps variadic :: (r.within ++ Ty.withinAll ps)
  | .struct id packed fields => .struct id packed fields :: Ty.withinAll fields
  | t => [t]

def Ty.withinAll : List Ty → List Ty
  | [] => []
  | t :: ts => t.within ++ Ty.withinAll ts

end

namespace Ty

theorem self_mem_within (t : Ty) : t ∈ t.within := by
  cases t <;> simp [within]

theorem mem_withinAll {s : Ty} {ts : List Ty} : s ∈ withinAll ts ↔ ∃ t ∈ ts, s ∈ t.within := by
  induction ts with
  | nil => simp [withinAll]
  | cons t ts ih => simp [withinAll, ih]

theorem components_subset_within {c t : Ty} (h : c ∈ t.components) : c ∈ t.within := by
  cases t with
  | ptr _ e | array _ e | vector _ _ e =>
    cases List.mem_singleton.mp h
    exact List.mem_cons_of_mem _ (self_mem_within _)
  | func r ps _ =>
    apply List.mem_cons_of_mem
    rcases List.mem_cons.mp h with rfl | h
    · exact List.mem_append_left _ (self_mem_within _)
    · exact List.mem_append_right _ (mem_withinAll.mpr ⟨c, h, self_mem_within c⟩)
  | struct id packed fields =>
    exact List.mem_cons_of_mem _ (mem_withinAll.mpr ⟨c, h, self_mem_within c⟩)
  | _ => cases h

mutual

theorem within_trans {c s : Ty} (hc : c ∈ s.within) : (t : Ty) → s ∈ t.within → c ∈ t.within
  | .ptr _ e, h | .array _ e, h | .vector _ _ e, h => by
    rcases List.mem_cons.mp h with rfl | h
    · exact hc
    · exact List.mem_cons_of_mem _ (within_trans hc e h)
  | .func r ps _, h => by
    rcases List.mem_cons.mp h with rfl | h
    · exact hc
    · apply List.mem_cons_of_mem
      rcases List.mem_append.mp h with h | h
      · exact List.mem_append_left _ (within_trans hc r h)
      · exact List.mem_append_right _ (withinAll_trans hc ps h)
  | .struct _ _ fields, h => by
    rcases List.mem_cons.mp h with rfl | h
    · exact hc
    · exact List.mem_cons_of_mem _ (withinAll_trans hc fields h)
  | .void, h | .label, h | .token, h | .metadata, h | .mmx, h | .float _, h | .int _, h
  | .incomplete _, h | .named _, h => by
    cases List.mem_singleton.mp h
    exact hc

theorem withinAll_trans {c s : Ty} (hc : c ∈ s.within) :
    (ts : List Ty) → s ∈ withinAll ts → c ∈ withinAll ts
  | t :: ts, h => by
    rcases List.mem_append.mp h with h | h
    · exact List.mem_append_left _ (within_trans hc t h)
    · exact List.mem_append_right _ (withinAll_trans hc ts h)

end

end Ty

namespace TypeDefs

/-- What a type leads to: its components, with names replaced by definitions. A name that is left
was the definition of a name, and leads on to its own. -/
def next (defs : TypeDefs) : Ty → List Ty
  | .named n => [defs.expand (.named n)]
  | t => t.components.map defs.expand

theorem expand_eq_or (defs : TypeDefs) (t : Ty) :
    defs.expand t = t ∨ defs.expand t ∈ defs.map Prod.snd := by
  cases t with
  | named n =>
    rw [expand]
    cases h : defs.lookup n with
    | none => exact .inl rfl
    | some d =>
      obtain ⟨before, after, rfl, -⟩ := List.lookup_eq_some_iff.mp h
      exact .inr (by simp)
  | _ => exact .inl rfl

theorem mem_next {defs : TypeDefs} {t u : Ty} (h : u ∈ defs.next t) :
    (∃ n, t = .named n ∧ u = defs.expand t) ∨ ∃ c ∈ t.components, u = defs.expand c := by
  cases t with
  | named n => exact .inl ⟨n, rfl, List.mem_singleton.mp h⟩
  | _ =>
    obtain ⟨c, hc, hu⟩ := List.mem_map.mp h
    exact .inr ⟨c, hc, hu.symm⟩

end TypeDefs

/-- The types in which a walk can be, and those from which it starts. -/
structure TypeGraph where
  defs : TypeDefs
  /-- Whether types that were seen are kept off the stack. -/
  sparing : Bool
  starts : List Ty
  nodes : List Ty
  starts_subset : starts ⊆ nodes
  closed : ∀ t ∈ nodes, defs.next t ⊆ nodes

def TypeGraph.ofTypes (defs : TypeDefs) (sparing : Bool) (ts : List Ty) : TypeGraph where
  defs
  sparing
  starts := ts.map defs.expand
  nodes := (Ty.withinAll (ts ++ defs.map Prod.snd)).map defs.expand
  starts_subset := by
    intro u hu
    obtain ⟨t, ht, rfl⟩ := List.mem_map.mp hu
    exact List.mem_map_of_mem (Ty.mem_withinAll.mpr
      ⟨t, List.mem_append_left _ ht, t.self_mem_within⟩)
  closed := by
    intro t ht u hu
    obtain ⟨s, hs, rfl⟩ := List.mem_map.mp ht
    -- The node is written inside one of the types itself: as the type it was, or as a definition.
    have hnode : defs.expand s ∈ Ty.withinAll (ts ++ defs.map Prod.snd) := by
      rcases defs.expand_eq_or s with heq | hmem
      · rwa [heq]
      · exact Ty.mem_withinAll.mpr ⟨_, List.mem_append_right _ hmem, Ty.self_mem_within _⟩
    rcases TypeDefs.mem_next hu with ⟨n, -, rfl⟩ | ⟨c, hc, rfl⟩
    · exact List.mem_map_of_mem hnode
    · exact List.mem_map_of_mem (Ty.withinAll_trans (Ty.components_subset_within hc) _ hnode)

/-- A walk underway: the types still to be visited and those that were opened, the latest first. -/
structure Walk (g : TypeGraph) where
  stack : List Ty
  seen : List Ty
  stack_subset : stack ⊆ g.nodes

namespace Walk

variable {g : TypeGraph}

def sees (seen : List Ty) (t : Ty) : Bool := seen.any t.eqb

theorem sees_iff {seen : List Ty} {t : Ty} : sees seen t = true ↔ t ∈ seen := by
  simp [sees, Ty.eqb_iff]

/-- Puts types on a stack, the last on top. -/
def push (sparing : Bool) (seen : List Ty) (ts stack : List Ty) : List Ty :=
  ts.foldl (fun stack t => if sparing && sees seen t then stack else t :: stack) stack

theorem push_eq (sparing : Bool) (seen ts stack : List Ty) : push sparing seen ts stack =
    (ts.filter fun t => !(sparing && sees seen t)).reverse ++ stack := by
  induction ts generalizing stack with
  | nil => rfl
  | cons t ts ih =>
    change push sparing seen ts _ = _
    rw [ih, List.filter_cons]
    by_cases h : (sparing && sees seen t) = true <;> simp [h]

theorem push_subset (sparing : Bool) (seen ts stack : List Ty) :
    push sparing seen ts stack ⊆ ts ++ stack := by
  intro u hu
  rw [push_eq] at hu
  rcases List.mem_append.mp hu with hu | hu
  · exact List.mem_append_left _ (List.mem_filter.mp (List.mem_reverse.mp hu)).1
  · exact List.mem_append_right _ hu

theorem length_push_le (sparing : Bool) (seen ts stack : List Ty) :
    (push sparing seen ts stack).length ≤ ts.length + stack.length := by
  rw [push_eq, List.length_append, List.length_reverse]
  exact Nat.add_le_add_right (List.length_filter_le _ ts) _

def enter (w : Walk g) (t : Ty) (h : t ∈ g.nodes) : Walk g where
  stack := push g.sparing w.seen [t] w.stack
  seen := w.seen
  stack_subset := by
    intro u hu
    rcases List.mem_append.mp (push_subset _ _ _ _ hu) with hu | hu
    · exact List.mem_singleton.mp hu ▸ h
    · exact w.stack_subset hu

def step (w : Walk g) : Walk g :=
  match h : w.stack with
  | [] => w
  | t :: rest =>
    have hrest : rest ⊆ g.nodes := fun u hu => w.stack_subset (h ▸ List.mem_cons_of_mem t hu)
    -- It may have been opened after it was put on the stack.
    if sees w.seen t then ⟨rest, w.seen, hrest⟩
    else {
      stack := push g.sparing (t :: w.seen) (g.defs.next t) rest
      seen := t :: w.seen
      stack_subset := by
        intro u hu
        rcases List.mem_append.mp (push_subset _ _ _ _ hu) with hu | hu
        · exact g.closed t (w.stack_subset (h ▸ List.mem_cons_self)) hu
        · exact hrest hu }

def arcs (defs : TypeDefs) (seen : List Ty) : List Ty → Nat
  | [] => 0
  | t :: ts => (if sees seen t then 0 else (defs.next t).length) + arcs defs seen ts

/-- No walk takes more steps from here. -/
def potential (w : Walk g) : Nat :=
  w.stack.length + arcs g.defs w.seen g.nodes

theorem arcs_cons_le (defs : TypeDefs) (seen : List Ty) (t : Ty) (ts : List Ty) :
    arcs defs (t :: seen) ts ≤ arcs defs seen ts := by
  induction ts with
  | nil => simp [arcs]
  | cons u ts ih =>
    by_cases hu : u ∈ seen
    · have hcons : u ∈ t :: seen := List.mem_cons_of_mem t hu
      simpa [arcs, sees_iff.mpr hu, sees_iff.mpr hcons] using ih
    · simp only [arcs, sees_iff, hu, if_false]
      split <;> omega

/-- Opening a type takes all arcs that leave it. -/
theorem arcs_open (defs : TypeDefs) {seen : List Ty} {t : Ty} {ts : List Ty} (ht : t ∈ ts)
    (hnew : t ∉ seen) : arcs defs (t :: seen) ts + (defs.next t).length ≤ arcs defs seen ts := by
  induction ts with
  | nil => cases ht
  | cons u ts ih =>
    by_cases hu : t = u
    · subst hu
      have hle := arcs_cons_le defs seen t ts
      simp only [arcs, sees_iff, hnew, List.mem_cons_self, if_true, if_false]
      omega
    · have hrest := ih (List.mem_of_ne_of_mem hu ht)
      have hsame : sees (t :: seen) u = sees seen u := by
        rw [Bool.eq_iff_iff, sees_iff, sees_iff]
        simp [Ne.symm hu]
      rw [arcs, arcs, hsame]
      omega

theorem potential_step (w : Walk g) (h : w.stack ≠ []) : w.step.potential < w.potential := by
  unfold step
  split
  · next heq => exact absurd heq h
  · next t rest heq =>
    simp only
    split
    · simp [potential, heq]
    · next hnew =>
      have ht : t ∈ g.nodes := w.stack_subset (heq ▸ List.mem_cons_self)
      have harcs := arcs_open g.defs ht (mt sees_iff.mpr hnew)
      have hlen := length_push_le g.sparing (t :: w.seen) (g.defs.next t) rest
      simp only [potential, heq, List.length_cons]
      omega

def drain (w : Walk g) : Walk g :=
  if w.stack = [] then w else w.step.drain
termination_by w.potential
decreasing_by exact w.potential_step ‹_›

def visit (w : Walk g) (t : Ty) (h : t ∈ g.nodes) : Walk g :=
  (w.enter t h).drain

def structs (w : Walk g) : List StructTy :=
  w.seen.reverse.filterMap Ty.struct?

end Walk

/-- The walk that visits one start after another. -/
def TypeGraph.walk (g : TypeGraph) : Walk g :=
  g.starts.attach.foldl (fun w t => w.visit t.1 (g.starts_subset t.2)) ⟨[], [], List.nil_subset _⟩

end CallTargets.IR
