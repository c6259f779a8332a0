import CallTargets.IR.Type.Walk
import Mathlib.Data.List.Nodup
import Mathlib.Logic.Function.Iterate
import Mathlib.Logic.Relation
import Mathlib.Tactic

/-!
# Walks through types

A walk opens a type only if it has not seen it, so it opens each type at most once. Whatever an
opened type leads to has been seen or waits on the stack. When the stack is empty, what was seen is
therefore closed under the arcs of the graph, and the walk has found the structs that can be reached
from its starts: no fewer, no others, and none of them twice.
-/
namespace CallTargets.IR

open Relation

/-! ### Structs in reach -/

/-- One step from a type to a type it is made of, or from a name to its definition. -/
inductive TypeDefs.Leads (defs : TypeDefs) : Ty → Ty → Prop
  | name {n : ByteString} {t : Ty} (h : defs.lookup n = some t) : Leads defs (.named n) t
  | pointee {space : Nat} {e : Ty} : Leads defs (.ptr space e) e
  | element {len : UInt64} {e : Ty} : Leads defs (.array len e) e
  | lane {scalable : Bool} {len : UInt64} {e : Ty} : Leads defs (.vector scalable len e) e
  | result {r : Ty} {ps : List Ty} {variadic : Bool} : Leads defs (.func r ps variadic) r
  | param {r : Ty} {ps : List Ty} {variadic : Bool} {t : Ty} (h : t ∈ ps) :
      Leads defs (.func r ps variadic) t
  | member {id : StructId} {packed : Bool} {fields : List Ty} {t : Ty} (h : t ∈ fields) :
      Leads defs (.struct id packed fields) t

def TypeDefs.Reaches (defs : TypeDefs) (t : Ty) (st : StructTy) : Prop :=
  ∃ u, ReflTransGen defs.Leads t u ∧ defs.struct? u = some st

theorem Ty.toTy_of_struct? {t : Ty} {st : StructTy} (h : t.struct? = some st) : st.toTy = t := by
  cases t with
  | struct id packed fields =>
    cases h
    rfl
  | incomplete name =>
    cases h
    rfl
  | _ => cases h

namespace TypeDefs

variable {defs : TypeDefs} {t u c : Ty} {st : StructTy}

theorem Reaches.here (h : defs.struct? t = some st) : defs.Reaches t st :=
  ⟨t, .refl, h⟩

theorem Leads.reaches (h : defs.Leads t u) (hu : defs.Reaches u st) : defs.Reaches t st := by
  obtain ⟨v, hv, hst⟩ := hu
  exact ⟨v, hv.head h, hst⟩

mutual

/-- The structs written inside a type are in its reach, without a step through a name. -/
theorem reaches_of_mem_structs (defs : TypeDefs) (st : StructTy) :
    (t : Ty) → st ∈ t.structs → defs.Reaches t st
  | .ptr _ e, h => Leads.pointee.reaches (reaches_of_mem_structs defs st e h)
  | .array _ e, h => Leads.element.reaches (reaches_of_mem_structs defs st e h)
  | .vector _ _ e, h => Leads.lane.reaches (reaches_of_mem_structs defs st e h)
  | .func r ps _, h => by
    rcases List.mem_append.mp h with h | h
    · exact Leads.result.reaches (reaches_of_mem_structs defs st r h)
    · obtain ⟨t, ht, hst⟩ := reaches_of_mem_structsOf defs st ps h
      exact (Leads.param ht).reaches hst
  | .struct id packed fields, h => by
    rcases List.mem_cons.mp h with rfl | h
    · exact .here rfl
    · obtain ⟨t, ht, hst⟩ := reaches_of_mem_structsOf defs st fields h
      exact (Leads.member ht).reaches hst
  | .incomplete name, h => by
    obtain rfl := List.mem_singleton.mp h
    exact .here rfl

theorem reaches_of_mem_structsOf (defs : TypeDefs) (st : StructTy) :
    (ts : List Ty) → st ∈ Ty.structsOf ts → ∃ t ∈ ts, defs.Reaches t st
  | t :: ts, h => by
    rcases List.mem_append.mp h with h | h
    · exact ⟨t, List.mem_cons_self, reaches_of_mem_structs defs st t h⟩
    · obtain ⟨u, hu, hst⟩ := reaches_of_mem_structsOf defs st ts h
      exact ⟨u, List.mem_cons_of_mem t hu, hst⟩

end

theorem leads_of_mem_components (h : c ∈ t.components) : defs.Leads t c := by
  cases t with
  | ptr _ e =>
    cases List.mem_singleton.mp h
    exact .pointee
  | array _ e =>
    cases List.mem_singleton.mp h
    exact .element
  | vector _ _ e =>
    cases List.mem_singleton.mp h
    exact .lane
  | func r ps _ =>
    rcases List.mem_cons.mp h with rfl | h
    · exact .result
    · exact .param h
  | struct _ _ fields => exact .member h
  | _ => cases h

theorem leads_expand (defs : TypeDefs) (t : Ty) : ReflTransGen defs.Leads t (defs.expand t) := by
  cases t with
  | named n =>
    rw [expand]
    cases h : defs.lookup n with
    | none => exact .refl
    | some d => exact .single (.name h)
  | _ => exact .refl

/-- An arc of the graph is a step followed by what the type at its end stands for. -/
theorem exists_leads_of_mem_next (h : u ∈ defs.next t) :
    ∃ v, ReflTransGen defs.Leads t v ∧ defs.expand v = u := by
  rcases mem_next h with ⟨n, -, rfl⟩ | ⟨v, hv, rfl⟩
  · exact ⟨t, .refl, rfl⟩
  · exact ⟨v, .single (leads_of_mem_components hv), rfl⟩

/-- A set that has what its types lead to has what can be reached from them by steps. -/
theorem Leads.expand_mem {S : Set Ty} (hS : ∀ t ∈ S, ∀ u ∈ defs.next t, u ∈ S)
    (h : defs.Leads t u) (ht : defs.expand t ∈ S) : defs.expand u ∈ S := by
  cases h with
  | @name n u hn =>
    have hexp : defs.expand (.named n) = u := by simp [expand, hn]
    rw [hexp] at ht
    cases u with
    | named k => exact hS _ ht _ (List.mem_singleton_self _)
    | _ => exact ht
  | pointee | element | lane => exact hS _ ht _ (List.mem_singleton_self _)
  | result => exact hS _ ht _ List.mem_cons_self
  | param hu => exact hS _ ht _ (List.mem_cons_of_mem _ (List.mem_map_of_mem hu))
  | member hu => exact hS _ ht _ (List.mem_map_of_mem hu)

end TypeDefs

namespace Walk

variable {g : TypeGraph} {w : Walk g} {t u : Ty}

/-! ### One step -/

theorem mem_seen_or_push (sparing : Bool) {seen ts stack : List Ty} (h : u ∈ ts) :
    u ∈ seen ∨ u ∈ push sparing seen ts stack := by
  by_cases hu : u ∈ seen
  · exact .inl hu
  · have hnot : ¬ sees seen u = true := mt sees_iff.mp hu
    right
    rw [push_eq]
    apply List.mem_append_left
    simp [h, hnot]

theorem stack_subset_push (sparing : Bool) (seen ts stack : List Ty) :
    stack ⊆ push sparing seen ts stack := by
  rw [push_eq]
  exact List.subset_append_right _ _

theorem step_cases (w : Walk g) :
    (w.stack = [] ∧ w.step = w) ∨ ∃ t rest, w.stack = t :: rest ∧
      ((t ∈ w.seen ∧ w.step.seen = w.seen ∧ w.step.stack = rest) ∨
        (t ∉ w.seen ∧ w.step.seen = t :: w.seen ∧
          w.step.stack = push g.sparing (t :: w.seen) (g.defs.next t) rest)) := by
  unfold step
  split
  · next heq => exact .inl ⟨heq, rfl⟩
  · next t rest heq =>
    refine .inr ⟨t, rest, heq, ?_⟩
    by_cases ht : t ∈ w.seen
    · exact .inl ⟨ht, by simp [sees_iff.mpr ht], by simp [sees_iff.mpr ht]⟩
    · have hnot : ¬ sees w.seen t = true := mt sees_iff.mp ht
      exact .inr ⟨ht, by simp [hnot], by simp [hnot]⟩

/-- A type that was met: it was opened, or it waits on the stack. -/
def Met (w : Walk g) (t : Ty) : Prop :=
  t ∈ w.seen ∨ t ∈ w.stack

theorem Met.step (h : w.Met t) : w.step.Met t := by
  rcases w.step_cases with ⟨-, heq⟩ | ⟨s, rest, hstack, hcase⟩
  · rwa [heq]
  · unfold Met at h ⊢
    rw [hstack, List.mem_cons] at h
    rcases hcase with ⟨hs, hseen, hrest⟩ | ⟨-, hseen, hrest⟩
    · rw [hseen, hrest]
      rcases h with h | rfl | h
      · exact .inl h
      · exact .inl hs
      · exact .inr h
    · rw [hseen, hrest]
      rcases h with h | rfl | h
      · exact .inl (List.mem_cons_of_mem _ h)
      · exact .inl List.mem_cons_self
      · exact .inr (stack_subset_push _ _ _ _ h)

/-- What was opened was opened once, and whatever it leads to was met. -/
structure Tidy (w : Walk g) : Prop where
  nodup : w.seen.Nodup
  met : ∀ t ∈ w.seen, ∀ u ∈ g.defs.next t, w.Met u

theorem Tidy.step (h : w.Tidy) : w.step.Tidy := by
  rcases w.step_cases with ⟨-, heq⟩ | ⟨s, rest, hstack, hcase⟩
  · rwa [heq]
  · rcases hcase with ⟨-, hseen, -⟩ | ⟨hs, hseen, hrest⟩
    · constructor
      · rw [hseen]
        exact h.nodup
      · intro t ht u hu
        rw [hseen] at ht
        exact (h.met t ht u hu).step
    · constructor
      · rw [hseen]
        exact List.nodup_cons.mpr ⟨hs, h.nodup⟩
      · intro t ht u hu
        rw [hseen] at ht
        rcases List.mem_cons.mp ht with rfl | ht
        · -- What the type opened now leads to is on the stack, unless it was opened before.
          unfold Met
          rw [hseen, hrest]
          exact mem_seen_or_push _ hu
        · exact (h.met t ht u hu).step

/-- A set that has what its types lead to is not left. -/
theorem step_mem {S : Set Ty} (hS : ∀ t ∈ S, ∀ u ∈ g.defs.next t, u ∈ S)
    (h : ∀ t, w.Met t → t ∈ S) : ∀ t, w.step.Met t → t ∈ S := by
  rcases w.step_cases with ⟨-, heq⟩ | ⟨s, rest, hstack, hcase⟩
  · rwa [heq]
  · have hs : s ∈ S := h s (.inr (hstack ▸ List.mem_cons_self))
    have hold (t : Ty) (ht : t ∈ rest) : t ∈ S := h t (.inr (hstack ▸ List.mem_cons_of_mem s ht))
    intro t ht
    unfold Met at ht
    rcases hcase with ⟨-, hseen, hrest⟩ | ⟨-, hseen, hrest⟩
    · rw [hseen, hrest] at ht
      rcases ht with ht | ht
      · exact h t (.inl ht)
      · exact hold t ht
    · rw [hseen, hrest] at ht
      rcases ht with ht | ht
      · rcases List.mem_cons.mp ht with rfl | ht
        · exact hs
        · exact h t (.inl ht)
      · rcases List.mem_append.mp (push_subset _ _ _ _ ht) with ht | ht
        · exact hS s hs t ht
        · exact hold t ht

/-! ### To the end of the stack -/

theorem drain_keeps {P : Walk g → Prop} (hstep : ∀ w, P w → P w.step) (h : P w) : P w.drain := by
  fun_induction drain w with
  | case1 w _ => exact h
  | case2 w _ ih => exact ih (hstep w h)

@[simp] theorem stack_drain (w : Walk g) : w.drain.stack = [] := by
  fun_induction drain w with
  | case1 w hempty => exact hempty
  | case2 w _ ih => exact ih

/-- The walk ends after no more steps than there are types on the stack and arcs that leave types
which were not opened. -/
theorem exists_iterate_step (w : Walk g) : ∃ n ≤ w.potential, step^[n] w = w.drain := by
  fun_induction drain w with
  | case1 w _ => exact ⟨0, Nat.zero_le _, rfl⟩
  | case2 w hstack ih =>
    obtain ⟨n, hn, heq⟩ := ih
    exact ⟨n + 1, Nat.lt_of_le_of_lt hn (w.potential_step hstack), heq⟩

theorem Met.mem_seen_drain (h : w.Met t) : t ∈ w.drain.seen := by
  have hmet : w.drain.Met t := drain_keeps (P := fun w => w.Met t) (fun _ h => h.step) h
  rcases hmet with hseen | hstack
  · exact hseen
  · rw [stack_drain] at hstack
    cases hstack

/-! ### Visits -/

theorem met_enter {h : t ∈ g.nodes} : (w.enter t h).Met u ↔ u = t ∨ w.Met u := by
  unfold Met
  change u ∈ w.seen ∨ u ∈ push g.sparing w.seen [t] w.stack ↔ _
  constructor
  · rintro (hu | hu)
    · exact .inr (.inl hu)
    · rcases List.mem_cons.mp (push_subset _ _ _ _ hu) with rfl | hu
      · exact .inl rfl
      · exact .inr (.inr hu)
  · rintro (rfl | hu | hu)
    · exact mem_seen_or_push _ (List.mem_singleton_self u)
    · exact .inl hu
    · exact .inr (stack_subset_push _ _ _ _ hu)

theorem Tidy.visit (hw : w.Tidy) (h : t ∈ g.nodes) : (w.visit t h).Tidy := by
  apply drain_keeps (fun _ hw => hw.step)
  exact ⟨hw.nodup, fun s hs u hu => met_enter.mpr (.inr (hw.met s hs u hu))⟩

theorem mem_seen_visit (w : Walk g) (h : t ∈ g.nodes) : t ∈ (w.visit t h).seen :=
  (met_enter.mpr (.inl rfl)).mem_seen_drain

theorem seen_subset_visit (w : Walk g) (h : t ∈ g.nodes) : w.seen ⊆ (w.visit t h).seen :=
  fun _ hu => (met_enter.mpr (.inr (.inl hu))).mem_seen_drain

theorem visit_mem {S : Set Ty} (hS : ∀ t ∈ S, ∀ u ∈ g.defs.next t, u ∈ S)
    (hw : ∀ u, w.Met u → u ∈ S) (h : t ∈ g.nodes) (ht : t ∈ S) :
    ∀ u, (w.visit t h).Met u → u ∈ S := by
  refine drain_keeps (P := fun w => ∀ u, w.Met u → u ∈ S) (fun _ hw => step_mem hS hw) ?_
  intro u hu
  rcases met_enter.mp hu with rfl | hu
  · exact ht
  · exact hw u hu

end Walk

namespace TypeGraph

variable {g : TypeGraph} {t u : Ty}

theorem walk_keeps {P : Walk g → Prop} (hstart : P ⟨[], [], List.nil_subset _⟩)
    (hvisit : ∀ w t (ht : t ∈ g.starts), P w → P (w.visit t (g.starts_subset ht))) : P g.walk := by
  unfold walk
  generalize (⟨[], [], List.nil_subset _⟩ : Walk g) = w at hstart ⊢
  induction g.starts.attach generalizing w with
  | nil => exact hstart
  | cons t ts ih => exact ih _ (hvisit w t.1 t.2 hstart)

theorem tidy_walk (g : TypeGraph) : g.walk.Tidy := by
  apply walk_keeps
  · exact ⟨List.nodup_nil, fun t ht => by cases ht⟩
  · intro w t ht hw
    exact hw.visit _

@[simp] theorem stack_walk (g : TypeGraph) : g.walk.stack = [] := by
  apply walk_keeps (P := fun w => w.stack = [])
  · rfl
  · intro w t ht _
    exact Walk.stack_drain _

theorem closed_seen_walk (ht : t ∈ g.walk.seen) (hu : u ∈ g.defs.next t) : u ∈ g.walk.seen := by
  rcases g.tidy_walk.met t ht u hu with hu | hu
  · exact hu
  · rw [stack_walk] at hu
    cases hu

theorem starts_subset_seen (g : TypeGraph) : g.starts ⊆ g.walk.seen := by
  intro t ht
  unfold walk
  have hmem : ⟨t, ht⟩ ∈ g.starts.attach := List.mem_attach _ _
  generalize (⟨[], [], List.nil_subset _⟩ : Walk g) = w
  generalize g.starts.attach = ts at hmem ⊢
  -- From the last start backwards: no visit forgets what was opened before it.
  induction ts using List.reverseRecOn with
  | nil => cases hmem
  | append_singleton ts s ih =>
    rw [List.foldl_append]
    rcases List.mem_append.mp hmem with hmem | hmem
    · exact Walk.seen_subset_visit _ _ (ih hmem)
    · cases List.mem_singleton.mp hmem
      exact Walk.mem_seen_visit _ _

theorem seen_walk_mem {S : Set Ty} (hS : ∀ t ∈ S, ∀ u ∈ g.defs.next t, u ∈ S)
    (hstarts : ∀ t ∈ g.starts, t ∈ S) (ht : t ∈ g.walk.seen) : t ∈ S := by
  have hmet : ∀ u, g.walk.Met u → u ∈ S := by
    apply walk_keeps (P := fun w => ∀ u, w.Met u → u ∈ S)
    · rintro u (hu | hu) <;> cases hu
    · intro w s hs hw
      exact Walk.visit_mem hS hw _ (hstarts s hs)
  exact hmet t (.inl ht)

/-! ### What a walk finds -/

variable {defs : TypeDefs} {sparing : Bool} {ts : List Ty} {st : StructTy}

theorem mem_seen_walk : u ∈ (ofTypes defs sparing ts).walk.seen ↔
    ∃ t ∈ ts, ∃ v, ReflTransGen defs.Leads t v ∧ defs.expand v = u := by
  constructor
  · intro hu
    refine seen_walk_mem (S := {u | ∃ t ∈ ts, ∃ v, ReflTransGen defs.Leads t v ∧ defs.expand v = u})
      ?_ ?_ hu
    · rintro _ ⟨t, ht, v, hv, rfl⟩ u hu
      obtain ⟨v', hv', rfl⟩ := TypeDefs.exists_leads_of_mem_next hu
      exact ⟨t, ht, v', (hv.trans (defs.leads_expand v)).trans hv', rfl⟩
    · intro u hu
      obtain ⟨t, ht, rfl⟩ := List.mem_map.mp hu
      exact ⟨t, ht, t, .refl, rfl⟩
  · rintro ⟨t, ht, v, hv, rfl⟩
    induction hv with
    | refl => exact starts_subset_seen _ (List.mem_map_of_mem ht)
    | tail _ hstep ih =>
      exact hstep.expand_mem (S := {u | u ∈ (ofTypes defs sparing ts).walk.seen})
        (fun _ ht _ hu => closed_seen_walk ht hu) ih

theorem mem_structs_walk :
    st ∈ (ofTypes defs sparing ts).walk.structs ↔ ∃ t ∈ ts, defs.Reaches t st := by
  simp only [Walk.structs, List.mem_filterMap, List.mem_reverse, mem_seen_walk]
  constructor
  · rintro ⟨_, ⟨t, ht, v, hv, rfl⟩, hst⟩
    exact ⟨t, ht, v, hv, hst⟩
  · rintro ⟨t, ht, v, hv, hst⟩
    exact ⟨_, ⟨t, ht, v, hv, rfl⟩, hst⟩

theorem nodup_structs_walk (g : TypeGraph) : g.walk.structs.Nodup := by
  apply List.Nodup.filterMap
  · intro t u st ht hu
    rw [← Ty.toTy_of_struct? ht, ← Ty.toTy_of_struct? hu]
  · exact List.nodup_reverse.mpr g.tidy_walk.nodup

end TypeGraph
end CallTargets.IR
