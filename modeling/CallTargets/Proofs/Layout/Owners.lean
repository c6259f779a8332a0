import CallTargets.CallGraph.Visible
import CallTargets.Layout.Address
import CallTargets.Proofs.TypeWalk

/-!
# Fields of structs that a module uses

A field that an address designates belongs to a struct that is written inside the type the address
is computed from, or inside the definition of a name there. Stack slots, globals and address
computations of instructions start from types that the module uses. So the struct of the field is
among the struct types of the module, unless the address is computed from constants.
-/
namespace CallTargets

open IR

/-! ### Answers of queries -/

def Yields {α : Type} (q : Query α) (P : α → Prop) : Prop :=
  ∀ cache a cache', q cache = some (a, cache') → P a

namespace Yields

variable {α β : Type} {P : α → Prop} {Q : β → Prop}

theorem pure {a : α} (h : P a) : Yields (Pure.pure a) P := by
  intro cache b cache' hb
  cases hb
  exact h

theorem bind {q : Query α} {f : α → Query β} (hq : Yields q P) (hf : ∀ a, P a → Yields (f a) Q) :
    Yields (q >>= f) Q := by
  intro cache b cache' hb
  obtain ⟨⟨a, cache''⟩, ha, hfa⟩ := Option.bind_eq_some_iff.mp hb
  exact hf a (hq cache a cache'' ha) cache'' b cache' hfa

/-- A query whose own answer does not matter for the rest. -/
theorem bind_any {q : Query α} {f : α → Query β} (hf : ∀ a, Yields (f a) Q) : Yields (q >>= f) Q :=
  bind (P := fun _ => True) (fun _ _ _ _ => trivial) fun a _ => hf a

end Yields

namespace IR

/-! ### Covered types -/

theorem Ty.structsOf_eq (ts : List Ty) : Ty.structsOf ts = ts.flatMap Ty.structs := by
  induction ts with
  | nil => rfl
  | cons t ts ih => rw [Ty.structsOf, ih, List.flatMap_cons]

variable {S : Set StructTy} {defs : TypeDefs}

def Ty.Covered (S : Set StructTy) (t : Ty) : Prop :=
  ∀ st ∈ t.structs, st ∈ S

def TypeDefs.Closed (defs : TypeDefs) (S : Set StructTy) : Prop :=
  ∀ d ∈ defs, d.2.Covered S

namespace Ty.Covered

theorem expand {t : Ty} (h : t.Covered S) (hS : defs.Closed S) : (defs.expand t).Covered S := by
  cases t with
  | named n =>
    rw [TypeDefs.expand]
    cases hn : defs.lookup n with
    | none => exact h
    | some d =>
      obtain ⟨before, after, hdefs, -⟩ := List.lookup_eq_some_iff.mp hn
      have hmem : (n, d) ∈ defs := by simp [hdefs]
      exact hS (n, d) hmem
  | _ => exact h

theorem field {id : StructId} {packed : Bool} {fields : List Ty}
    (h : (Ty.struct id packed fields).Covered S) {t : Ty} (ht : t ∈ fields) : t.Covered S := by
  intro st hst
  apply h
  rw [Ty.structs, Ty.structsOf_eq]
  exact List.mem_cons_of_mem _ (List.mem_flatMap.mpr ⟨t, ht, hst⟩)

theorem elem {t e : Ty} {len : UInt64} (h : t.Covered S) (hS : defs.Closed S)
    (hexp : defs.expand t = .array len e) : e.Covered S := by
  have hexpand := h.expand hS
  rw [hexp] at hexpand
  exact hexpand

/-- A covered struct type belongs to the set, and so do the structs in its fields. -/
theorem struct? {t : Ty} (h : t.Covered S) (hS : defs.Closed S) {st : StructTy}
    (hst : defs.struct? t = some st) : st ∈ S ∧ ∀ t ∈ st.fields, t.Covered S := by
  have hexp := h.expand hS
  unfold TypeDefs.struct? Ty.struct? at hst
  split at hst
  · next id packed fields heq =>
    cases hst
    rw [heq] at hexp
    exact ⟨hexp _ (by simp [Ty.structs]), fun t ht => hexp.field ht⟩
  · next name heq =>
    cases hst
    rw [heq] at hexp
    exact ⟨hexp _ (by simp [Ty.structs]), fun t ht => by cases ht⟩
  · cases hst

/-- A step stays among types whose structs belong to the set. -/
theorem leads {t u : Ty} (h : t.Covered S) (hS : defs.Closed S) (hstep : defs.Leads t u) :
    u.Covered S := by
  cases hstep with
  | name hn =>
    have hexpand := h.expand hS
    simpa [TypeDefs.expand, hn] using hexpand
  | pointee | element | lane => exact h
  | result => exact fun st hst => h st (List.mem_append_left _ hst)
  | param hu =>
    intro st hst
    apply h
    rw [Ty.structs, Ty.structsOf_eq]
    exact List.mem_append_right _ (List.mem_flatMap.mpr ⟨u, hu, hst⟩)
  | member hu => exact h.field hu

theorem reaches {t : Ty} (h : t.Covered S) (hS : defs.Closed S) {st : StructTy}
    (hst : defs.Reaches t st) : st ∈ S := by
  obtain ⟨u, hu, hst⟩ := hst
  have hcovered : u.Covered S := by
    clear hst
    induction hu with
    | refl => exact h
    | tail _ hstep ih => exact ih.leads hS hstep
  exact (hcovered.struct? hS hst).1

end Ty.Covered

/-- What a name stands for is written as a definition. So among types that include the definitions,
the structs in reach are those that are written there. -/
theorem TypeDefs.reaches_iff_mem_structsOf {ts : List Ty} (hdefs : ∀ d ∈ defs, d.2 ∈ ts)
    {st : StructTy} : (∃ t ∈ ts, defs.Reaches t st) ↔ st ∈ Ty.structsOf ts := by
  constructor
  · rintro ⟨t, ht, hst⟩
    have hcovered : ∀ u ∈ ts, u.Covered {s | s ∈ Ty.structsOf ts} := by
      intro u hu s hs
      change s ∈ Ty.structsOf ts
      rw [Ty.structsOf_eq]
      exact List.mem_flatMap.mpr ⟨u, hu, hs⟩
    exact (hcovered t ht).reaches (fun d hd => hcovered d.2 (hdefs d hd)) hst
  · exact defs.reaches_of_mem_structsOf st ts

namespace Module

abbrev Covers (m : Module) (t : Ty) : Prop :=
  t.Covered {st | st ∈ m.structTypes}

theorem mem_structTypes {m : Module} {st : StructTy} :
    st ∈ m.structTypes ↔ ∃ t ∈ m.usedTypes, st ∈ t.structs := by
  have hdefs : ∀ d ∈ m.typeDefs, d.2 ∈ m.usedTypes := fun d hd =>
    List.mem_append_left _ (List.mem_append_left _ (List.mem_map_of_mem hd))
  rw [structTypes, typeGraph, TypeGraph.mem_structs_walk,
    TypeDefs.reaches_iff_mem_structsOf hdefs, Ty.structsOf_eq, List.mem_flatMap]

theorem covers_of_used {m : Module} {t : Ty} (h : t ∈ m.usedTypes) : m.Covers t :=
  fun _ hst => mem_structTypes.mpr ⟨t, h, hst⟩

theorem closed_structTypes (m : Module) : m.typeDefs.Closed {st | st ∈ m.structTypes} := by
  intro d hd
  apply covers_of_used
  simp only [usedTypes, List.mem_append]
  exact .inl (.inl (List.mem_map_of_mem hd))

end Module
end IR

namespace Layout

variable {S : Set StructTy} {l : Layout}

/-- The field, if there is one, belongs to a struct of the set. -/
def OwnedBy (S : Set StructTy) (found : Option FieldRef) : Prop :=
  ∀ r ∈ found, r.owner ∈ S

theorem ownedBy_none (S : Set StructTy) : OwnedBy S none := by
  intro r hr
  cases hr

theorem descend_ownedBy (hS : l.defs.Closed S) (n : Nat) {found : Option FieldRef}
    (hfound : OwnedBy S found) {t : Ty} (ht : t.Covered S) (offset : Int64) :
    Yields (l.descend n found t offset) (OwnedBy S) := by
  induction n generalizing found t offset with
  | zero => exact .pure hfound
  | succ n ih =>
    rw [descend]
    split
    · next st hst =>
      obtain ⟨hmem, hfields⟩ := ht.struct? hS hst
      split
      · exact .pure hfound
      · refine .bind_any fun offsets => ?_
        split
        · exact .pure hfound
        · next i start _ =>
          split
          · next field hfield =>
            have howned : OwnedBy S (some ⟨st, i⟩) := by
              intro r hr
              cases hr
              exact hmem
            exact ih howned (hfields field (List.mem_of_getElem? hfield)) _
          · exact .pure hfound
    · split
      · next len e heq => exact .bind_any fun size => ih hfound (ht.elem hS heq) _
      · exact .pure hfound

theorem peelArrays_covered (hS : l.defs.Closed S) (n : Nat) {t : Ty} (ht : t.Covered S)
    (offset : Int64) : Yields (l.peelArrays n t offset) fun r => r.1.Covered S := by
  induction n generalizing t offset with
  | zero => exact .pure ht
  | succ n ih =>
    rw [peelArrays]
    split
    · next len e heq => exact .bind_any fun size => ih (ht.elem hS heq) _
    · exact .pure ht

/-- The innermost field at an offset of a covered type belongs to a struct of the set. -/
theorem fieldAt_ownedBy (hS : l.defs.Closed S) {t : Ty} (ht : t.Covered S) (offset : Int64) :
    Yields (l.fieldAt t offset) (OwnedBy S) := by
  unfold fieldAt
  split
  · exact .pure (ownedBy_none S)
  · refine .bind (peelArrays_covered hS maxTypeDepth ht offset) ?_
    rintro ⟨t', offset'⟩ ht'
    dsimp only
    split
    · exact .pure (ownedBy_none S)
    · exact .bind_any fun size => descend_ownedBy hS maxTypeDepth (ownedBy_none S) ht' _

end Layout

/-! ### Addresses -/

namespace IR

/-- An address that is not computed from constants, not even at its source. -/
structure Frame.Plain (fr : Frame) (addr : Value) : Prop where
  address : ∀ c, fr.strip addr = .const c → c.gep? = none
  source : ∀ g, fr.gep? (fr.strip addr) = some g → ∀ c, fr.strip g.src = .const c → c.gep? = none

namespace Module

/-- The element types of the memory instructions of a module are covered. -/
theorem covers_memory {m : Module} {f : Func} (hf : f ∈ m.funcs) {block index : Nat} {i : Inst}
    (hi : f.inst? block index = some i) {t : Ty} (ht : i.op.memoryType? = some t) : m.Covers t := by
  obtain ⟨b, hb, hi⟩ := Option.bind_eq_some_iff.mp hi
  apply covers_of_used
  simp only [usedTypes, List.mem_append, List.mem_flatMap, List.mem_cons, List.mem_filterMap]
  exact .inr ⟨f, hf, .inr ⟨b, List.mem_of_getElem? hb, i, List.mem_of_getElem? hi, ht⟩⟩

theorem covers_global {m : Module} {g : Global} (hg : g ∈ m.globals) : m.Covers g.content := by
  apply covers_of_used
  simp only [usedTypes, List.mem_append]
  exact .inl (.inr (List.mem_map.mpr ⟨g, hg, rfl⟩))

end Module

theorem Frame.global?_mem {fr : Frame} {v : Value} {g : Global} (h : fr.global? v = some g) :
    g ∈ fr.module.globals := by
  unfold global? at h
  split at h
  · exact List.mem_of_getElem? h
  · cases h

/-- What an operand leads to is an instruction of the function. -/
theorem Frame.inst?_eq {m : Module} {f : Func} {v : Value} {i : Inst}
    (h : (⟨m, some f⟩ : Frame).inst? v = some i) : ∃ block index, f.inst? block index = some i := by
  cases v with
  | inst block index => exact ⟨block, index, h⟩
  | _ => cases h

/-- The element type of an address computation by an instruction is covered. -/
theorem Frame.gep?_covers {m : Module} {f : Func} (hf : f ∈ m.funcs) {v : Value} {g : Gep}
    (hg : (⟨m, some f⟩ : Frame).gep? v = some g) (hv : ∀ c, v = .const c → c.gep? = none) :
    m.Covers g.elem := by
  unfold gep? at hg
  split at hg
  · next c =>
    rw [hv c rfl] at hg
    cases hg
  · split at hg
    · next elem src indices hop =>
      cases hg
      obtain ⟨i, hi, hop⟩ := Option.map_eq_some_iff.mp hop
      obtain ⟨block, index, hi⟩ := inst?_eq hi
      exact Module.covers_memory hf hi (by rw [hop]; rfl)
    · cases hg

end IR

namespace Layout

theorem foldGeps_elem (l : Layout) (fr : Frame) (n : Nat) {g : Gep}
    (hsrc : ∀ c, fr.strip g.src = .const c → c.gep? = none) (before : Int64) :
    Yields (l.foldGeps fr n g before) fun r => ∀ x ∈ r, x.1 = g.elem := by
  unfold foldGeps
  refine .bind_any fun offset => ?_
  split
  · exact .pure (by simp)
  · next offset =>
    dsimp only
    split
    · exact .pure (by simp)
    · split
      · next c hc =>
        rw [hsrc c hc]
        exact .pure (by simp)
      · exact .pure (by simp)

/-- A plain address inside a function leads to a field of a struct type of the module. -/
theorem resolve_ownedBy {m : Module} {l : Layout} (hdefs : l.defs = m.typeDefs) {f : Func}
    (hf : f ∈ m.funcs) {addr : Value} (hplain : Frame.Plain ⟨m, some f⟩ addr) :
    Yields (l.resolve ⟨m, some f⟩ addr) (OwnedBy {st | st ∈ m.structTypes}) := by
  have hS : l.defs.Closed {st | st ∈ m.structTypes} := by
    rw [hdefs]
    exact m.closed_structTypes
  unfold resolve
  dsimp only
  split
  · next g hg =>
    have hcovers : m.Covers g.elem := Frame.gep?_covers hf hg hplain.address
    unfold gepOffset
    rw [hg]
    refine .bind (foldGeps_elem l _ _ (hplain.source g hg) 0) ?_
    intro r hr
    split
    · next t offset =>
      have helem : t = g.elem := hr (t, offset) rfl
      rw [helem]
      exact fieldAt_ownedBy hS hcovers offset
    · exact .pure (ownedBy_none _)
  · split
    · next g hg =>
      exact fieldAt_ownedBy hS (Module.covers_global (Frame.global?_mem hg)) 0
    · split
      · next t count hop =>
        obtain ⟨i, hi, hop⟩ := Option.map_eq_some_iff.mp hop
        obtain ⟨block, index, hi⟩ := Frame.inst?_eq hi
        exact fieldAt_ownedBy hS (Module.covers_memory hf hi (by rw [hop]; rfl)) 0
      · exact .pure (ownedBy_none _)

end Layout
end CallTargets
