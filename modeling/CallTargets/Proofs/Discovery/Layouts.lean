import CallTargets.Proofs.Discovery.Operands
import CallTargets.Proofs.Layout.Judgement
import CallTargets.Proofs.Layout.Owners

/-!
# Layouts remembered during a scan

A scan asks for the layouts of the types of globals, of the memory that instructions work on, and of
what constant addresses are computed through. If none of these types is nested deeper than types are
followed, and no two structs in them share an identity, then at any moment of a scan all layouts
remembered so far are plain ones.
-/
namespace CallTargets

open IR

/-! ### Queries that keep what is remembered -/

namespace Layout

variable {l : Layout} {S : Set StructTy} {α : Type} {P : α → Prop}

/-- From sound layouts a query comes to an answer of some kind, if to any, and leaves sound
layouts. -/
def Ensures (l : Layout) (S : Set StructTy) (q : Query α) (P : α → Prop) : Prop :=
  ∀ cache, l.Sound S cache → ∀ a cache', q cache = some (a, cache') → P a ∧ l.Sound S cache'

theorem ensures_of_settling {q : Query α} (h : (l.settling S).Holds q P) : Ensures l S q P :=
  keeping_of_settling h

end Layout

/-! ### Types that are asked for -/

namespace IR

def Const.gepTypes : Const → List Ty
  | .gep elem src _ => elem :: src.gepTypes
  | .cast _ src _ => src.gepTypes
  | _ => []

def Value.gepTypes : Value → List Ty
  | .const c => c.gepTypes
  | _ => []

def Func.laidOutTypes (f : Func) : List Ty :=
  (f.blocks.flatMap fun b => b.insts.filterMap fun i => i.op.memoryType?) ++
    f.operands.flatMap Value.gepTypes

def Module.laidOutTypes (m : Module) : List Ty :=
  m.globals.map Global.content ++ m.funcs.flatMap Func.laidOutTypes

namespace Frame

variable {m : Module} {f : Func}

theorem mem_insts {b i : Nat} {inst : Inst} (h : f.inst? b i = some inst) :
    ∃ blk ∈ f.blocks, inst ∈ blk.insts := by
  obtain ⟨blk, hblk, hinst⟩ := Option.bind_eq_some_iff.mp h
  exact ⟨blk, List.mem_of_getElem? hblk, List.mem_of_getElem? hinst⟩

/-- An operand of an instruction that a value names is an operand of the function. -/
theorem operand_of_inst? {v w : Value} {op : Op}
    (h : (Frame.inst? ⟨m, some f⟩ v).map Inst.op = some op) (hw : w ∈ op.operands) :
    w ∈ f.operands := by
  obtain ⟨inst, hinst, rfl⟩ := Option.map_eq_some_iff.mp h
  cases v with
  | inst b i =>
    obtain ⟨blk, hblk, hinst⟩ := mem_insts hinst
    exact Func.mem_operands_of_inst hblk hinst hw
  | _ => cases hinst

theorem memoryType_of_inst? {v : Value} {op : Op} {t : Ty}
    (h : (Frame.inst? ⟨m, some f⟩ v).map Inst.op = some op) (ht : op.memoryType? = some t) :
    t ∈ f.laidOutTypes := by
  obtain ⟨inst, hinst, rfl⟩ := Option.map_eq_some_iff.mp h
  cases v with
  | inst b i =>
    obtain ⟨blk, hblk, hinst⟩ := mem_insts hinst
    apply List.mem_append_left
    exact List.mem_flatMap.mpr ⟨blk, hblk, List.mem_filterMap.mpr ⟨inst, hinst, ht⟩⟩
  | _ => cases hinst

def Traced (f : Func) (v : Value) : Prop := v.gepTypes ⊆ f.laidOutTypes

theorem traced_of_operand {v : Value} (h : v ∈ f.operands) : Traced f v :=
  fun _ ht => List.mem_append_right _ (List.mem_flatMap.mpr ⟨v, h, ht⟩)

/-- What a value is cast from is written in a cast around it, or is an operand. -/
theorem uncast?_cases {v w : Value} (h : Frame.uncast? ⟨m, some f⟩ v = some w) :
    (∃ kind c t, kind.isPointerCast = true ∧ v = .const (.cast kind c t) ∧ w = .const c) ∨
      w ∈ f.operands := by
  unfold uncast? at h
  split at h
  · next kind c t =>
    split at h
    · next hkind =>
      cases h
      exact .inl ⟨kind, c, t, hkind, rfl, rfl⟩
    · cases h
  · cases h
  · split at h
    · next hop =>
      split at h
      · cases h
        exact .inr (operand_of_inst? hop List.mem_cons_self)
      · cases h
    · cases h

theorem Traced.stripWithin {v : Value} (h : Traced f v) (n : Nat) :
    Traced f (Frame.stripWithin ⟨m, some f⟩ n v) := by
  refine stripWithin_induction ?_ h n
  intro v w hw hv
  obtain ⟨kind, c, t, -, rfl, rfl⟩ | hoperand := uncast?_cases hw
  · exact hv
  · exact traced_of_operand hoperand

theorem Traced.gep {v : Value} (h : Traced f v) {g : Gep}
    (hg : Frame.gep? ⟨m, some f⟩ v = some g) : g.elem ∈ f.laidOutTypes ∧ Traced f g.src := by
  cases v with
  | const c =>
    cases c with
    | gep elem src indices =>
      cases hg
      exact ⟨h List.mem_cons_self, fun t ht => h (List.mem_cons_of_mem elem ht)⟩
    | _ => cases hg
  | _ =>
    simp only [gep?] at hg
    split at hg
    · next hop =>
      cases hg
      exact ⟨memoryType_of_inst? hop rfl,
        traced_of_operand (operand_of_inst? hop List.mem_cons_self)⟩
    · cases hg

/-- The types in a chain of address computations are types of the function. -/
theorem chain_laidOut {n : Nat} {g : Gep} (helem : g.elem ∈ f.laidOutTypes) (hsrc : Traced f g.src) :
    ∀ g' ∈ Frame.chain ⟨m, some f⟩ n g, g'.elem ∈ f.laidOutTypes := by
  induction n generalizing g with
  | zero => simpa [chain] using helem
  | succ n ih =>
    intro g' hg'
    rcases List.mem_cons.mp hg' with rfl | hg'
    · exact helem
    · cases hinner : inner? ⟨m, some f⟩ g with
      | none => simp [hinner] at hg'
      | some inner =>
        have htraced := hsrc.stripWithin (m := m) maxCasts
        unfold inner? at hinner
        split at hinner
        · next c hc =>
          rw [← strip, hc] at htraced
          obtain ⟨helem', hsrc'⟩ := htraced.gep (m := m) hinner
          exact ih helem' hsrc' g' (by simpa [inner?, hc, hinner] using hg')
        · cases hinner

/-- The types that an operand is looked up in are types of the module. -/
theorem addressTypes_laidOut (hf : f ∈ m.funcs) {addr : Value} (haddr : addr ∈ f.operands) :
    ∀ t ∈ addressTypes ⟨m, some f⟩ addr, t ∈ m.laidOutTypes := by
  have hfunc : ∀ t ∈ f.laidOutTypes, t ∈ m.laidOutTypes := fun t h =>
    List.mem_append_right _ (List.mem_flatMap.mpr ⟨f, hf, h⟩)
  have htraced : Traced f (strip ⟨m, some f⟩ addr) := (traced_of_operand haddr).stripWithin _
  intro t ht
  rcases List.mem_append.mp ht with ht | ht
  · obtain ⟨g', hg', rfl⟩ := List.mem_map.mp ht
    cases hg : gep? ⟨m, some f⟩ (strip ⟨m, some f⟩ addr) with
    | none => simp [links, hg] at hg'
    | some g =>
      obtain ⟨helem, hsrc⟩ := htraced.gep hg
      exact hfunc _ (chain_laidOut helem hsrc g' (by simpa [links, hg] using hg'))
  · unfold objectType? at ht
    split at ht
    · next g hg =>
      rw [Option.toList_some, List.mem_singleton] at ht
      rw [ht]
      exact List.mem_append_left _ (List.mem_map_of_mem (global?_mem hg))
    · split at ht
      · next hop =>
        rw [Option.toList_some, List.mem_singleton] at ht
        rw [ht]
        exact hfunc _ (memoryType_of_inst? hop rfl)
      · cases ht

end Frame
end IR

/-! ### Scans -/

namespace Scanner

variable {sc : Scanner}

def structs (sc : Scanner) : Set StructTy :=
  {st | ∃ t ∈ sc.module.laidOutTypes, st ∈ sc.layout.defs.structsIn (maxTypeDepth + 1) t}

/-- The types that a scan may ask for are followed to their ends, and no two structs in them share
an identity. -/
structure Regular (sc : Scanner) : Prop where
  nested : ∀ t ∈ sc.module.laidOutTypes,
    sc.layout.defs.Within (fun _ => True) (maxTypeDepth + 1) t
  apart : ∀ st ∈ sc.structs, ∀ st' ∈ sc.structs, st.id = st'.id → st = st'

theorem Regular.distinct (h : sc.Regular) : sc.layout.Distinct sc.module.laidOutTypes :=
  ⟨h.nested, h.apart⟩

theorem Regular.apart_structs (h : sc.Regular) : sc.layout.Apart sc.structs :=
  h.distinct.apart

def Keeps {α : Type} (P : Memory → Prop) (q : ScanM α) : Prop :=
  ∀ memory, P memory → P (q memory).2

section

variable {P : Memory → Prop}

theorem Keeps.pure {α : Type} (a : α) : Keeps P (Pure.pure a) := fun _ hmemory => hmemory

theorem Keeps.bind {α β : Type} {q : ScanM α} {f : α → ScanM β} (hq : Keeps P q)
    (hf : ∀ a, Keeps P (f a)) : Keeps P (q >>= f) :=
  fun memory hmemory => hf (q memory).1 (q memory).2 (hq memory hmemory)

/-- What the scan keeps wherever it looks for a field. -/
def Searches (sc : Scanner) (P : Memory → Prop) : Prop :=
  ∀ f ∈ sc.module.funcs, ∀ addr ∈ f.operands, Keeps P (sc.resolve (sc.frame f) addr)

theorem Searches.provenance (h : sc.Searches P) {f : Func} (hf : f ∈ sc.module.funcs)
    (callee : Option Value) : Keeps P (sc.provenance (sc.frame f) callee) := by
  unfold Scanner.provenance
  split
  · next elem src hload =>
    obtain ⟨inst, hinst, hop⟩ := Option.map_eq_some_iff.mp hload
    obtain ⟨v, -, hv⟩ := Option.bind_eq_some_iff.mp hinst
    have hop : ((sc.frame f).inst? ((sc.frame f).strip v)).map Inst.op = some (.load elem src) := by
      rw [hv, Option.map_some, hop]
    refine (h f hf src (Frame.operand_of_inst? hop List.mem_cons_self)).bind fun r => ?_
    cases r <;> exact .pure _
  · exact .pure _

theorem Searches.callFacts (h : sc.Searches P) {f : Func} (hf : f ∈ sc.module.funcs) (id : CallId)
    (c : Call) (i : Inst) : Keeps P (sc.callFacts f id c i) := by
  unfold Scanner.callFacts
  dsimp only
  split
  · exact .pure _
  · split
    · exact .pure _
    · exact (h.provenance hf c.callee).bind fun _ => .pure _

theorem Searches.storeFacts (h : sc.Searches P) {f : Func} (hf : f ∈ sc.module.funcs) (src : Value)
    {dst : Value} (hdst : dst ∈ f.operands) : Keeps P (sc.storeFacts (sc.frame f) src dst) := by
  unfold Scanner.storeFacts
  split
  · exact (h f hf dst hdst).bind fun _ => .pure _
  · exact .pure _

theorem Searches.stepFacts (h : sc.Searches P) {s : Step} (hs : s ∈ sc.steps) :
    Keeps P (sc.stepFacts s) := by
  have hf := func_mem_of_step hs
  cases s with
  | term f t => exact .pure _
  | inst f id i =>
    obtain ⟨-, -, hi⟩ := mem_steps_inst.mp hs
    obtain ⟨b, hb, hi⟩ := Frame.mem_insts hi
    rw [Scanner.stepFacts]
    unfold instFacts
    dsimp only
    split
    · exact h.callFacts hf id _ i
    · next src dst hop =>
      have hdst : dst ∈ f.operands := Func.mem_operands_of_inst hb hi (by simp [hop, Op.operands])
      exact (h.storeFacts hf src hdst).bind fun _ => .pure _
    · exact .pure _

theorem Searches.memoryAfter (h : sc.Searches P) {steps : List Step} (hsteps : steps ⊆ sc.steps)
    {memory : Memory} (hmemory : P memory) : P (sc.memoryAfter steps memory) := by
  induction steps generalizing memory with
  | nil => exact hmemory
  | cons s steps ih =>
    obtain ⟨hs, hrest⟩ := List.cons_subset.mp hsteps
    exact ih hrest (h.stepFacts hs memory hmemory)

theorem Searches.runSteps (h : sc.Searches P) {steps : List Step} (hsteps : steps ⊆ sc.steps)
    (before : List (List Fact)) : Keeps P (sc.runSteps steps before) := by
  induction steps generalizing before with
  | nil => exact .pure _
  | cons s steps ih =>
    obtain ⟨hs, hrest⟩ := List.cons_subset.mp hsteps
    refine (h.stepFacts hs).bind fun found => ?_
    cases found.failure with
    | none => exact ih hrest _
    | some e => exact .pure _

theorem Searches.scan (h : sc.Searches P) : Keeps P sc.scan :=
  h.runSteps (List.Subset.refl _) _

end

abbrev Sound (sc : Scanner) (memory : Memory) : Prop :=
  sc.layout.Sound sc.structs memory.layouts

theorem Regular.searches (h : sc.Regular) : sc.Searches sc.Sound := by
  intro f hf addr haddr memory hmemory
  unfold resolve
  cases hrun : sc.layout.resolve (sc.frame f) addr memory.layouts with
  | none => exact hmemory
  | some r =>
    have hsettles := (Layout.settling_measured h.apart_structs).resolve fun t ht =>
      h.distinct.follows t (Frame.addressTypes_laidOut hf haddr t ht)
    exact (Layout.ensures_of_settling hsettles memory.layouts hmemory r.1 r.2 hrun).2

theorem memoryAfter_sound (h : sc.Regular) {before : List Step} (hbefore : before ⊆ sc.steps) :
    sc.Sound (sc.memoryAfter before .empty) :=
  h.searches.memoryAfter hbefore (sc.layout.sound_nil _)

end Scanner
end CallTargets
