import CallTargets.Proofs.Discovery.Gathering

/-!
# Programs with their modules in another order

A program is a list of modules, and a function is numbered by the position of its module. If the
modules have paths of their own, any other order of them gives every function a new number. The main
statement is that an external name stands for the same body in every order, if no name has two.
-/
namespace CallTargets

open IR

def FuncId.moveBy (σ : Nat → Nat) (id : FuncId) : FuncId := { id with module := σ id.module }

def Symbol.moveBy (σ : Nat → Nat) (s : Symbol) : Symbol := { s with id := s.id.moveBy σ }

def Symbol.isDefinition (s : Symbol) : Bool := s.hasBody && !s.isLocal

namespace Program

variable {p p' : Program} {σ : Nat → Nat}

/-- The modules of a program stand in another one under new numbers. -/
structure Reorders (p p' : Program) (σ : Nat → Nat) : Prop where
  file : ∀ i < p.length, p'[σ i]? = p[i]?
  perm : ((List.range p.length).map σ).Perm (List.range p'.length)

def OneBody (p : Program) : Prop :=
  ∀ s ∈ p.symbols, ∀ t ∈ p.symbols, s.isDefinition → t.isDefinition → s.name = t.name → s = t

instance (p : Program) : Decidable p.OneBody :=
  inferInstanceAs (Decidable (∀ s ∈ p.symbols, ∀ t ∈ p.symbols, s.isDefinition →
    t.isDefinition → s.name = t.name → s = t))

def definition? (p : Program) (name : ByteString) : Option Symbol :=
  (p.symbols.foldl Context.enter []).get? name

def position (p : Program) (path : ByteString) : Nat :=
  (p.map ModuleFile.path).idxOf path

theorem getElem?_position (hpaths : (p.map ModuleFile.path).Nodup) {file : ModuleFile}
    (h : file ∈ p) : p[p.position file.path]? = some file := by
  have hget : (p.map ModuleFile.path)[p.position file.path]? = some file.path :=
    List.getElem?_idxOf (List.mem_map_of_mem h)
  rw [List.getElem?_map] at hget
  obtain ⟨file', hfile', hpath⟩ := Option.map_eq_some_iff.mp hget
  rw [hfile', List.inj_on_of_nodup_map hpaths (List.mem_of_getElem? hfile') h hpath]

/-- In another order a module stands where its path does. -/
theorem exists_reorders (hperm : p.Perm p') (hpaths : (p.map ModuleFile.path).Nodup) :
    ∃ σ, p.Reorders p' σ := by
  have hpaths' : (p'.map ModuleFile.path).Nodup := (hperm.map _).nodup_iff.mp hpaths
  let σ := fun i => p'.position (p.path i)
  have hfile : ∀ i < p.length, p'[σ i]? = p[i]? := by
    intro i hi
    have hpath : p.path i = (p[i]).path := by simp [Program.path, hi]
    have hmem : p[i] ∈ p' := hperm.mem_iff.mp (List.getElem_mem hi)
    simp only [σ, hpath, getElem?_position hpaths' hmem, List.getElem?_eq_getElem hi]
  refine ⟨σ, hfile, ?_⟩
  have hnodup : ((List.range p.length).map σ).Nodup := by
    refine List.Nodup.map_on ?_ List.nodup_range
    intro i hi j hj hij
    rw [List.mem_range] at hi hj
    have heq : p[i]? = p[j]? := by rw [← hfile i hi, ← hfile j hj, hij]
    have hpath : (p.map ModuleFile.path)[i]? = (p.map ModuleFile.path)[j]? := by
      rw [List.getElem?_map, List.getElem?_map, heq]
    exact (List.getElem?_inj (by simpa using hi) hpaths).mp hpath
  have hsub : (List.range p.length).map σ ⊆ List.range p'.length := by
    intro j hj
    obtain ⟨i, hi, rfl⟩ := List.mem_map.mp hj
    have hsome := hfile i (List.mem_range.mp hi)
    rw [List.getElem?_eq_getElem (List.mem_range.mp hi)] at hsome
    exact List.mem_range.mpr (List.getElem?_eq_some_iff.mp hsome).1
  apply (List.subperm_of_subset hnodup hsub).perm_of_length_le
  simp [hperm.length_eq]

namespace Reorders

variable (h : p.Reorders p' σ)

include h

theorem inj {i j : Nat} (hi : i < p.length) (hj : j < p.length) (hij : σ i = σ j) : i = j :=
  List.inj_on_of_nodup_map (h.perm.nodup_iff.mpr List.nodup_range) (List.mem_range.mpr hi)
    (List.mem_range.mpr hj) hij

theorem surj {j : Nat} (hj : j < p'.length) : ∃ i < p.length, σ i = j := by
  obtain ⟨i, hi, rfl⟩ := List.mem_map.mp (h.perm.mem_iff.mpr (List.mem_range.mpr hj))
  exact ⟨i, List.mem_range.mp hi, rfl⟩

theorem path_eq {i : Nat} (hi : i < p.length) : p'.path (σ i) = p.path i := by
  rw [Program.path, Program.path, h.file i hi]

theorem func?_eq {id : FuncId} (hid : id.module < p.length) :
    p'.func? (id.moveBy σ) = p.func? id := by
  simp only [func?, FuncId.moveBy, h.file id.module hid]

theorem symbol?_eq {id : FuncId} (hid : id.module < p.length) :
    p'.symbol? (id.moveBy σ) = (p.symbol? id).map (Symbol.moveBy σ) := by
  rw [symbol?, symbol?, h.func?_eq hid, Option.map_map]
  rfl

end Reorders

theorem mem_symbols_iff {s : Symbol} : s ∈ p.symbols ↔ p.symbol? s.id = some s := by
  refine ⟨symbol?_of_mem_symbols, fun hs => ?_⟩
  obtain ⟨f, hf, hof⟩ := Option.map_eq_some_iff.mp hs
  obtain ⟨file, hfile, hf⟩ := Option.bind_eq_some_iff.mp hf
  obtain ⟨m, hm, hf⟩ := Option.bind_eq_some_iff.mp hf
  refine List.mem_flatMap.mpr ⟨(file, s.id.module), List.mk_mem_zipIdx_iff_getElem?.mpr hfile, ?_⟩
  simp only [moduleSymbols, hm]
  exact List.mem_map.mpr ⟨(f, s.id.index), List.mk_mem_zipIdx_iff_getElem?.mpr hf, hof⟩

theorem lt_of_symbol? {id : FuncId} {s : Symbol} (h : p.symbol? id = some s) :
    id.module < p.length := by
  obtain ⟨f, hf, -⟩ := Option.map_eq_some_iff.mp h
  obtain ⟨file, hfile, -⟩ := Option.bind_eq_some_iff.mp hf
  exact (List.getElem?_eq_some_iff.mp hfile).1

theorem id_of_symbol? {id : FuncId} {s : Symbol} (h : p.symbol? id = some s) : s.id = id := by
  obtain ⟨f, -, rfl⟩ := Option.map_eq_some_iff.mp h
  rfl

theorem Reorders.mem_symbols (h : p.Reorders p' σ) {s' : Symbol} :
    s' ∈ p'.symbols ↔ ∃ s ∈ p.symbols, s.moveBy σ = s' := by
  simp only [mem_symbols_iff]
  constructor
  · intro hs'
    obtain ⟨i, hi, hσ⟩ := h.surj (lt_of_symbol? hs')
    let id : FuncId := ⟨i, s'.id.index⟩
    have hid : id.moveBy σ = s'.id := by simp only [id, FuncId.moveBy, hσ]
    have hs : p'.symbol? (id.moveBy σ) = (p.symbol? id).map (Symbol.moveBy σ) := h.symbol?_eq hi
    rw [hid, hs'] at hs
    obtain ⟨s, hs, hmove⟩ := Option.map_eq_some_iff.mp hs.symm
    exact ⟨s, id_of_symbol? hs ▸ hs, hmove⟩
  · rintro ⟨s, hs, rfl⟩
    change p'.symbol? (s.id.moveBy σ) = _
    rw [h.symbol?_eq (lt_of_symbol? hs), hs]
    rfl

end Program

/-! ### Definitions -/

namespace Context

theorem get?_enter_definition {defs : Assoc ByteString Symbol} {a s : Symbol} {name : ByteString}
    (h : (enter defs a).get? name = some s) :
    (s.isDefinition = true ∧ s.name = name) ∨ defs.get? name = some s := by
  have hput (ha : ¬ (!a.hasBody || a.isLocal) = true)
      (h : (defs.put a.name a).get? name = some s) :
      (s.isDefinition = true ∧ s.name = name) ∨ defs.get? name = some s := by
    rw [Assoc.get?_put] at h
    split at h
    · next hname =>
      cases h
      exact .inl ⟨by simpa [Symbol.isDefinition] using ha, hname⟩
    · exact .inr h
  unfold enter at h
  split at h
  · exact .inr h
  · next ha =>
    split at h
    · exact hput ha h
    · split at h
      · exact hput ha h
      · exact .inr h

theorem isSome_enter (defs : Assoc ByteString Symbol) (a : Symbol) {name : ByteString}
    (h : (defs.get? name).isSome ∨ a.isDefinition ∧ a.name = name) :
    ((enter defs a).get? name).isSome := by
  have hput : ((defs.put a.name a).get? name).isSome := by
    rw [Assoc.get?_put]
    split
    · rfl
    · next hne => exact h.resolve_right fun ha => hne ha.2
  unfold enter
  split
  · next ha =>
    refine h.resolve_right fun hdef => ?_
    simp [Symbol.isDefinition] at hdef
    simp [hdef] at ha
  · split
    · exact hput
    · next known hknown =>
      split
      · exact hput
      · rcases h with h | ⟨-, rfl⟩
        · exact h
        · rw [hknown]
          rfl

theorem get?_foldl_enter_definition {symbols : List Symbol} {defs : Assoc ByteString Symbol}
    {s : Symbol} {name : ByteString} (h : (symbols.foldl enter defs).get? name = some s) :
    (s.isDefinition = true ∧ s.name = name) ∨ defs.get? name = some s := by
  induction symbols generalizing defs with
  | nil => exact .inr h
  | cons a symbols ih =>
    rcases ih h with h | h
    · exact .inl h
    · exact get?_enter_definition h

theorem isSome_foldl_enter {symbols : List Symbol} {defs : Assoc ByteString Symbol}
    {name : ByteString}
    (h : (defs.get? name).isSome ∨ ∃ s ∈ symbols, s.isDefinition ∧ s.name = name) :
    ((symbols.foldl enter defs).get? name).isSome := by
  induction symbols generalizing defs with
  | nil => simpa using h
  | cons a symbols ih =>
    apply ih
    rcases h with h | ⟨s, hs, hdef⟩
    · exact .inl (isSome_enter defs a (.inl h))
    · rcases List.mem_cons.mp hs with rfl | hs
      · exact .inl (isSome_enter defs s (.inr hdef))
      · exact .inr ⟨s, hs, hdef⟩

end Context

namespace Program

variable {p p' : Program} {σ : Nat → Nat}

theorem definition?_sound {name : ByteString} {s : Symbol} (h : p.definition? name = some s) :
    s ∈ p.symbols ∧ s.isDefinition ∧ s.name = name :=
  ⟨(Context.get?_foldl_enter h).resolve_right (by simp [Assoc.get?]),
    (Context.get?_foldl_enter_definition h).resolve_right (by simp [Assoc.get?])⟩

/-- If no name has two bodies, a name stands for the body that has it. -/
theorem definition?_eq_some_iff (hone : p.OneBody) {name : ByteString} {s : Symbol} :
    p.definition? name = some s ↔ s ∈ p.symbols ∧ s.isDefinition ∧ s.name = name := by
  refine ⟨definition?_sound, ?_⟩
  rintro ⟨hs, hdef, hname⟩
  have hsome : (p.definition? name).isSome :=
    Context.isSome_foldl_enter (.inr ⟨s, hs, hdef, hname⟩)
  obtain ⟨t, ht⟩ := Option.isSome_iff_exists.mp hsome
  obtain ⟨htmem, htdef, htname⟩ := definition?_sound ht
  rw [hone s hs t htmem hdef htdef (hname.trans htname.symm)]
  exact ht

theorem Reorders.oneBody (h : p.Reorders p' σ) (hone : p.OneBody) : p'.OneBody := by
  intro s' hs' t' ht' hs ht hname
  obtain ⟨s, hsmem, rfl⟩ := h.mem_symbols.mp hs'
  obtain ⟨t, htmem, rfl⟩ := h.mem_symbols.mp ht'
  rw [hone s hsmem t htmem hs ht hname]

theorem Reorders.definition?_eq (h : p.Reorders p' σ) (hone : p.OneBody) (name : ByteString) :
    p'.definition? name = (p.definition? name).map (Symbol.moveBy σ) := by
  ext s'
  rw [definition?_eq_some_iff (h.oneBody hone), h.mem_symbols, Option.map_eq_some_iff]
  simp only [definition?_eq_some_iff hone]
  constructor
  · rintro ⟨⟨s, hs, rfl⟩, hdef, hname⟩
    exact ⟨s, ⟨hs, hdef, hname⟩, rfl⟩
  · rintro ⟨s, ⟨hs, hdef, hname⟩, rfl⟩
    exact ⟨⟨s, hs, rfl⟩, hdef, hname⟩

end Program

end CallTargets
