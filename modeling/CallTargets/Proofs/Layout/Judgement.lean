import CallTargets.Proofs.Layout.Remembered

/-!
# Judgements on queries

Whatever is asked about fields and addresses is put together from sizes, alignments and field
offsets. A judgement on queries that passes through sequences therefore holds of every such query,
once it holds of these three for all types that are met on the way.

One judgement is that a query keeps what holds of the remembered layouts. A stronger one is that its
answer does not depend on what is remembered. This holds of types that are nested no deeper than they
are followed, if no two structs in them share an identity.
-/
namespace CallTargets

open IR

/-- A way to judge queries by what holds of their answers. It passes through sequences. -/
structure Judgement where
  Holds : {α : Type} → Query α → (α → Prop) → Prop
  pure : ∀ {α : Type} {P : α → Prop} {a : α}, P a → Holds (Pure.pure a) P
  bind : ∀ {α β : Type} {P : α → Prop} {Q : β → Prop} {q : Query α} {f : α → Query β},
    Holds q P → (∀ a, P a → Holds (f a) Q) → Holds (q >>= f) Q

namespace Judgement

theorem imp (J : Judgement) {α : Type} {P Q : α → Prop} {q : Query α} (h : J.Holds q P)
    (hPQ : ∀ a, P a → Q a) : J.Holds q Q := by
  rw [← bind_pure q]
  exact J.bind h fun a ha => J.pure (hPQ a ha)

/-- If something holds of the remembered layouts, it holds of those that a query leaves. -/
def keeping (I : LayoutCache → Prop) : Judgement where
  Holds q P := ∀ cache, I cache → ∀ a cache', q cache = some (a, cache') → P a ∧ I cache'
  pure {_ _ _} ha := by
    intro cache hcache b cache' hrun
    cases hrun
    exact ⟨ha, hcache⟩
  bind {_ _ _ _ _ _} hq hf := by
    intro cache hcache b cache' hrun
    obtain ⟨⟨a, between⟩, hfirst, hsecond⟩ := Option.bind_eq_some_iff.mp hrun
    obtain ⟨ha, hbetween⟩ := hq cache hcache a between hfirst
    exact hf a ha between hbetween b cache' hsecond

end Judgement

/-! ### Addresses and the types they are computed through -/

namespace IR.Frame

/-- The constant address computation that another one starts from. -/
def inner? (fr : Frame) (g : Gep) : Option Gep :=
  match fr.strip g.src with
  | .const c => c.gep?
  | _ => none

/-- An address computation and those it starts from, `n` further ones at most. -/
def chain (fr : Frame) : Nat → Gep → List Gep
  | 0, g => [g]
  | n + 1, g => g :: ((fr.inner? g).map (fr.chain n)).getD []

/-- The address computations that a value is folded from, outermost first. -/
def links (fr : Frame) (v : Value) : List Gep :=
  ((fr.gep? v).map (fr.chain (maxGeps - 1))).getD []

def objectType? (fr : Frame) (v : Value) : Option Ty :=
  match fr.global? v with
  | some g => some g.content
  | none =>
    match (fr.inst? v).map Inst.op with
    | some (.alloca t _) => some t
    | _ => none

def addressTypes (fr : Frame) (addr : Value) : List Ty :=
  let v := fr.strip addr
  (fr.links v).map Gep.elem ++ (fr.objectType? v).toList

end IR.Frame

namespace Layout

theorem chain_eq_cons (fr : Frame) (n : Nat) (g : Gep) : ∃ rest, fr.chain n g = g :: rest := by
  cases n <;> exact ⟨_, rfl⟩

theorem foldGeps_zero (l : Layout) (fr : Frame) (g : Gep) (before : Int64) :
    l.foldGeps fr 0 g before = (do
      match ← l.indexedOffset g.elem g.indices with
      | none => return none
      | some offset => return some (g.elem, before + offset)) := by
  unfold foldGeps
  rfl

theorem foldGeps_succ (l : Layout) (fr : Frame) (n : Nat) (g : Gep) (before : Int64) :
    l.foldGeps fr (n + 1) g before = (do
      match ← l.indexedOffset g.elem g.indices with
      | none => return none
      | some offset =>
        match fr.inner? g with
        | some inner => l.foldGeps fr n inner (before + offset)
        | none => return some (g.elem, before + offset)) := by
  rw [foldGeps]
  congr 1
  funext offset
  cases offset with
  | none => rfl
  | some offset =>
    dsimp only
    cases hsrc : fr.strip g.src with
    | const c => cases hgep : c.gep? <;> simp only [Frame.inner?, hsrc, hgep]
    | _ => simp only [Frame.inner?, hsrc]

theorem resolve_eq (l : Layout) (fr : Frame) (addr : Value) :
    l.resolve fr addr = (do
      match fr.gep? (fr.strip addr) with
      | some _ =>
        match ← l.gepOffset fr (fr.strip addr) with
        | some (t, offset) => l.fieldAt t offset
        | none => return none
      | none =>
        match fr.objectType? (fr.strip addr) with
        | some t => l.fieldAt t 0
        | none => return none) := by
  unfold resolve Frame.objectType?
  dsimp only
  cases fr.gep? (fr.strip addr) with
  | some g => rfl
  | none =>
    cases fr.global? (fr.strip addr) with
    | some g => rfl
    | none =>
      dsimp only
      cases (fr.inst? (fr.strip addr)).map Inst.op with
      | none => rfl
      | some op => cases op <;> rfl

end Layout

/-! ### What is asked inside types -/

/-- A judgement holds of the sizes, alignments and field offsets of types of some kind, and the
types inside them are of this kind. -/
structure Judgement.Measured (J : Judgement) (l : Layout) (T : Ty → Prop) : Prop where
  part : ∀ t u, T t → u ∈ l.defs.parts t → T u
  size : ∀ t, T t → J.Holds (l.size t) fun _ => True
  align : ∀ t, T t → J.Holds (l.align t) fun _ => True
  offsets : ∀ t st, T t → l.defs.struct? t = some st → J.Holds (l.fieldOffsets st) fun _ => True

namespace Judgement.Measured

variable {J : Judgement} {l : Layout} {T : Ty → Prop} {t : Ty}

theorem alloc (h : J.Measured l T) (ht : T t) : J.Holds (l.alloc t) fun _ => True :=
  J.bind (h.size t ht) fun _ _ => J.bind (h.align t ht) fun _ _ => J.pure trivial

theorem innerOffset (h : J.Measured l T) (ht : T t) (indices : List Value) (offset : Int64) :
    J.Holds (l.innerOffset t indices offset) fun _ => True := by
  induction indices generalizing t offset with
  | nil => exact J.pure trivial
  | cons i is ih =>
    rw [Layout.innerOffset]
    cases hst : l.defs.struct? t with
    | some st =>
      dsimp only
      split
      · exact J.pure trivial
      · split
        · exact J.pure trivial
        · next field hfield =>
          refine J.bind (h.offsets t st ht hst) fun offsets _ => ?_
          exact ih (h.part t field ht (TypeDefs.mem_parts_of_field hst hfield)) _
    | none =>
      dsimp only
      split
      · next len e hexp =>
        have he := h.part t e ht (TypeDefs.mem_parts_of_array hexp)
        exact J.bind (h.alloc he) fun size _ => ih he _
      · next scalable len e hexp =>
        have he := h.part t e ht (by simp [TypeDefs.parts_of_vector hexp])
        exact J.bind (h.alloc he) fun size _ => ih he _
      · exact J.pure trivial

theorem indexedOffset (h : J.Measured l T) (ht : T t) (indices : List Value) :
    J.Holds (l.indexedOffset t indices) fun _ => True := by
  cases indices with
  | nil => exact J.pure trivial
  | cons i is => exact J.bind (h.alloc ht) fun size _ => h.innerOffset ht is _

theorem peelArrays (h : J.Measured l T) (ht : T t) (n : Nat) (offset : Int64) :
    J.Holds (l.peelArrays n t offset) fun r => T r.1 := by
  induction n generalizing t offset with
  | zero => exact J.pure ht
  | succ n ih =>
    rw [Layout.peelArrays]
    split
    · next len e hexp =>
      have he := h.part t e ht (TypeDefs.mem_parts_of_array hexp)
      exact J.bind (h.alloc he) fun size _ => ih he _
    · exact J.pure ht

theorem descend (h : J.Measured l T) (ht : T t) (n : Nat) (found : Option FieldRef)
    (offset : Int64) : J.Holds (l.descend n found t offset) fun _ => True := by
  induction n generalizing t found offset with
  | zero => exact J.pure trivial
  | succ n ih =>
    rw [Layout.descend]
    cases hst : l.defs.struct? t with
    | some st =>
      dsimp only
      split
      · exact J.pure trivial
      · refine J.bind (h.offsets t st ht hst) fun offsets _ => ?_
        split
        · exact J.pure trivial
        · split
          · next field hfield =>
            exact ih (h.part t field ht (TypeDefs.mem_parts_of_field hst hfield)) _ _
          · exact J.pure trivial
    | none =>
      dsimp only
      split
      · next len e hexp =>
        have he := h.part t e ht (TypeDefs.mem_parts_of_array hexp)
        exact J.bind (h.alloc he) fun size _ => ih he _ _
      · exact J.pure trivial

theorem fieldAt (h : J.Measured l T) (ht : T t) (offset : Int64) :
    J.Holds (l.fieldAt t offset) fun _ => True := by
  unfold Layout.fieldAt
  split
  · exact J.pure trivial
  · refine J.bind (h.peelArrays ht _ _) fun r hr => ?_
    dsimp only
    split
    · exact J.pure trivial
    · exact J.bind (h.alloc hr) fun size _ => h.descend hr _ _ _

/-- Of a chain of address computations, the type that the folded offset counts from is of the kind
of those in the chain. -/
theorem foldGeps (h : J.Measured l T) (fr : Frame) (n : Nat) {g : Gep}
    (hchain : ∀ g' ∈ fr.chain n g, T g'.elem) (before : Int64) :
    J.Holds (l.foldGeps fr n g before) fun r => ∀ x ∈ r, T x.1 := by
  induction n generalizing g before with
  | zero =>
    have helem : T g.elem := hchain g (by simp [Frame.chain])
    rw [Layout.foldGeps_zero]
    refine J.bind (h.indexedOffset helem g.indices) fun offset _ => ?_
    cases offset with
    | none => exact J.pure (by simp)
    | some offset => exact J.pure (by simpa using helem)
  | succ n ih =>
    have helem : T g.elem := hchain g (by simp [Frame.chain])
    rw [Layout.foldGeps_succ]
    refine J.bind (h.indexedOffset helem g.indices) fun offset _ => ?_
    cases offset with
    | none => exact J.pure (by simp)
    | some offset =>
      dsimp only
      cases hinner : fr.inner? g with
      | none => exact J.pure (by simpa using helem)
      | some inner =>
        refine ih (fun g' hg' => hchain g' ?_) _
        simp [Frame.chain, hinner, hg']

theorem gepOffset (h : J.Measured l T) {fr : Frame} {v : Value}
    (hlinks : ∀ g ∈ fr.links v, T g.elem) :
    J.Holds (l.gepOffset fr v) fun r => ∀ x ∈ r, T x.1 := by
  unfold Layout.gepOffset
  cases hg : fr.gep? v with
  | none => exact J.pure (by simp)
  | some g =>
    refine h.foldGeps fr _ (fun g' hg' => hlinks g' ?_) 0
    simpa [Frame.links, hg] using hg'

theorem resolve (h : J.Measured l T) {fr : Frame} {addr : Value}
    (htypes : ∀ t ∈ fr.addressTypes addr, T t) :
    J.Holds (l.resolve fr addr) fun _ => True := by
  have hlinks : ∀ g ∈ fr.links (fr.strip addr), T g.elem := fun g hg =>
    htypes g.elem (List.mem_append_left _ (List.mem_map_of_mem hg))
  rw [Layout.resolve_eq]
  cases fr.gep? (fr.strip addr) with
  | some g =>
    refine J.bind (h.gepOffset hlinks) fun r hr => ?_
    cases r with
    | none => exact J.pure trivial
    | some x => exact h.fieldAt (hr x rfl) _
  | none =>
    cases ht : fr.objectType? (fr.strip addr) with
    | none => exact J.pure trivial
    | some t => exact h.fieldAt (htypes t (List.mem_append_right _ (by simp [ht]))) 0

end Judgement.Measured

/-! ### Answers that do not depend on what is remembered -/

namespace Layout

variable {l : Layout} {S : Set StructTy}

/-- From sound layouts a query comes to the same answer, if to any, and leaves sound layouts. -/
def settling (l : Layout) (S : Set StructTy) : Judgement where
  Holds q P := ∃ answer, Agrees l S q answer ∧ ∀ a ∈ answer, P a
  pure {_ _ a} ha := ⟨some a, .pure a, by simpa using ha⟩
  bind {_ _ _ _ _ _} hq hf := by
    obtain ⟨answer, hq, hP⟩ := hq
    cases answer with
    | none => exact ⟨none, hq.bind (g := fun _ => none) nofun, by simp⟩
    | some a =>
      obtain ⟨answer', hfa, hQ⟩ := hf a (hP a rfl)
      refine ⟨answer', hq.bind (g := fun _ => answer') fun b hb => ?_, hQ⟩
      cases hb
      exact hfa

/-- A query whose answer does not depend on what is remembered keeps sound layouts. -/
theorem keeping_of_settling {α : Type} {P : α → Prop} {q : Query α}
    (h : (l.settling S).Holds q P) : (Judgement.keeping (l.Sound S)).Holds q P := by
  obtain ⟨answer, hagrees, hP⟩ := h
  intro cache hcache a cache' hrun
  have hagree := hagrees cache hcache
  cases answer with
  | none =>
    have hnone : q cache = none := hagree
    rw [hnone] at hrun
    cases hrun
  | some b =>
    obtain ⟨cache'', hrun', hcache'⟩ := hagree
    rw [hrun'] at hrun
    cases hrun
    exact ⟨hP a rfl, hcache'⟩

abbrev Follows (l : Layout) (S : Set StructTy) (t : Ty) : Prop :=
  l.defs.Within (fun u => ∀ st ∈ l.defs.struct? u, st ∈ S) (maxTypeDepth + 1) t

theorem Follows.field {t : Ty} (h : l.Follows S t) {st : StructTy}
    (hst : l.defs.struct? t = some st) {u : Ty} (hu : u ∈ st.fields) :
    l.defs.Within (fun u => ∀ st ∈ l.defs.struct? u, st ∈ S) maxTypeDepth u := by
  rw [← TypeDefs.parts_of_struct hst] at hu
  exact h.part hu

theorem Follows.struct_agrees {t : Ty} (h : l.Follows S t) (hS : l.Apart S) {st : StructTy}
    (hst : l.defs.struct? t = some st) :
    Agrees l S (structWith (l.measure maxTypeDepth) st) (layOut? (l.gauge maxTypeDepth) st) :=
  structWith_agrees hS (le_refl _) (h.here st hst)
    (fun _ hu => (h.field hst hu).imp fun _ _ => trivial)
    (fun _ hu => measure_agrees hS (Nat.le_succ _) (h.field hst hu))

/-- Sizes, alignments and field offsets do not depend on what is remembered. -/
theorem settling_measured (hS : l.Apart S) : (l.settling S).Measured l (l.Follows S) where
  part _ _ ht hu := (ht.part hu).mono (Nat.le_succ _)
  size _ ht := ⟨_, (measure_agrees hS (le_refl _) ht).size, fun _ _ => trivial⟩
  align _ ht := ⟨_, (measure_agrees hS (le_refl _) ht).align, fun _ _ => trivial⟩
  offsets _ _ ht hst := ⟨_, (Follows.struct_agrees ht hS hst).map _, fun _ _ => trivial⟩

def structsAmong (l : Layout) (ts : List Ty) : Set StructTy :=
  {st | ∃ t ∈ ts, st ∈ l.defs.structsIn (maxTypeDepth + 1) t}

/-- Types are followed to their ends, and no two structs in them share an identity. -/
structure Distinct (l : Layout) (ts : List Ty) : Prop where
  nested : ∀ t ∈ ts, l.defs.Within (fun _ => True) (maxTypeDepth + 1) t
  eq_of_id : ∀ st ∈ l.structsAmong ts, ∀ st' ∈ l.structsAmong ts, st.id = st'.id → st = st'

theorem Distinct.apart {ts : List Ty} (h : l.Distinct ts) : l.Apart (l.structsAmong ts) where
  eq_of_id := h.eq_of_id
  nested := by
    rintro st ⟨t, ht, hst⟩ u hu
    exact (h.nested t ht).of_structsIn hst u hu

theorem Distinct.follows {ts : List Ty} (h : l.Distinct ts) :
    ∀ t ∈ ts, l.Follows (l.structsAmong ts) t := by
  intro t ht
  have hstructs : ∀ st ∈ l.defs.structsIn (maxTypeDepth + 1) t, st ∈ l.structsAmong ts :=
    fun st hst => ⟨t, ht, hst⟩
  exact ((h.nested t ht).structs hstructs).imp fun _ hu => hu.2

end Layout
end CallTargets
