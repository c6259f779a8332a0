import CallTargets.CallGraph.Scan
import Mathlib.Tactic

/-!
# What a scan finds

A scan ends early exactly at an indirect call without a function type, whatever layouts are
remembered. Otherwise its facts are those of the globals followed by those of each step. They record
every indirect call once, at its position, and a function's fields and globals only after the
function itself was found.
-/
namespace CallTargets

open IR

/-- Facts about a function's fields and globals come after the function was found; `known` holds
the functions found before. -/
def Grounded : List Nat → List Fact → Prop
  | _, [] => True
  | known, .taken f _ :: facts => Grounded (f :: known) facts
  | known, .evidence f _ _ :: facts => f ∈ known ∧ Grounded known facts
  | known, .published f _ :: facts => f ∈ known ∧ Grounded known facts
  | known, .call _ :: facts => Grounded known facts

theorem Grounded.mono {known known' : List Nat} {facts : List Fact} (h : Grounded known facts)
    (hsub : known ⊆ known') : Grounded known' facts := by
  induction facts generalizing known known' with
  | nil => trivial
  | cons fact facts ih =>
    cases fact with
    | taken f how => exact ih h (List.cons_subset_cons f hsub)
    | evidence f owner field => exact ⟨hsub h.1, ih h.2 hsub⟩
    | published f g => exact ⟨hsub h.1, ih h.2 hsub⟩
    | call cs => exact ih h hsub

theorem Grounded.append {known : List Nat} {facts more : List Fact} (h : Grounded known facts)
    (hmore : Grounded known more) : Grounded known (facts ++ more) := by
  induction facts generalizing known with
  | nil => exact hmore
  | cons fact facts ih =>
    cases fact with
    | taken f how => exact ih h (hmore.mono (List.subset_cons_self f known))
    | evidence f owner field => exact ⟨h.1, ih h.2 hmore⟩
    | published f g => exact ⟨h.1, ih h.2 hmore⟩
    | call cs => exact ih h hmore

def Fact.call? : Fact → Option CallSite
  | .call cs => some cs
  | _ => none

theorem Fact.eq_call {fact : Fact} {cs : CallSite} (h : fact.call? = some cs) :
    fact = .call cs := by
  cases fact <;> cases h
  rfl

/-- Facts that stand on their own and record no call. -/
structure Quiet (facts : List Fact) : Prop where
  grounded : Grounded [] facts
  no_call : facts.filterMap Fact.call? = []

namespace Quiet

theorem nil : Quiet [] := ⟨trivial, rfl⟩

theorem append {facts more : List Fact} (h : Quiet facts) (hmore : Quiet more) :
    Quiet (facts ++ more) where
  grounded := h.grounded.append hmore.grounded
  no_call := by rw [List.filterMap_append, h.no_call, hmore.no_call, List.append_nil]

theorem flatMap {α : Type} {g : α → List Fact} {l : List α} (h : ∀ a ∈ l, Quiet (g a)) :
    Quiet (l.flatMap g) := by
  induction l with
  | nil => exact nil
  | cons a l ih =>
    rw [List.flatMap_cons]
    apply (h a List.mem_cons_self).append
    exact ih (fun b hb => h b (List.mem_cons_of_mem a hb))

end Quiet

/-! ### Constants -/

theorem foundFunc_quiet (how : Escapes) (via : Option ByteString) (f : Nat) :
    Quiet (foundFunc how via f) := by
  constructor <;> cases via <;> simp [foundFunc, Grounded, Fact.call?]

/-- A function in a field of a constant struct is found before the field is recorded for it. -/
theorem fieldFunc_quiet (how : Escapes) (via : Option ByteString) (f : Nat) (owner : Signature)
    (i : Nat) : Quiet (foundFunc how via f ++ [.evidence f owner i]) := by
  constructor <;> cases via <;> simp [foundFunc, Grounded, Fact.call?]

theorem fieldFacts_quiet (how : Escapes) (via : Option ByteString) (owner : Signature) (i : Nat)
    (cs : List Const) : Quiet (fieldFacts how via owner i cs) := by
  induction cs generalizing i with
  | nil => exact .nil
  | cons c cs ih =>
    rw [fieldFacts]
    split
    · next f _ =>
      rw [← List.singleton_append, ← List.append_assoc]
      exact (fieldFunc_quiet how via f owner i).append (ih (i + 1))
    · exact ih (i + 1)

theorem stackFacts_quiet (v : TypeView) (how : Escapes) (via : Option ByteString) (n : Nat)
    (stack : List Const) : Quiet (stackFacts v how via n stack) := by
  fun_induction stackFacts v how via n stack with
  | case1 => exact .nil
  | case2 => exact .nil
  | case3 n c stack f _ ih => exact (foundFunc_quiet how via f).append ih
  | case4 n c stack t fields _ ih =>
    exact (fieldFacts_quiet how via (v.signature t) 0 fields).append ih
  | _ => assumption

theorem operandFacts_quiet (v : TypeView) (fr : Frame) (how : Escapes) (operand : Value) :
    Quiet (operandFacts v fr how operand) := by
  unfold operandFacts
  split
  · exact ⟨trivial, rfl⟩
  · exact .nil
  · exact stackFacts_quiet v how none _ _
  · exact .nil

theorem operandsFacts_quiet (v : TypeView) (fr : Frame) (how : Escapes) (operands : List Value) :
    Quiet (operands.flatMap (operandFacts v fr how)) :=
  .flatMap fun o _ => operandFacts_quiet v fr how o

namespace Scanner

theorem globalFacts_quiet (sc : Scanner) (g : Global) : Quiet (sc.globalFacts g) := by
  unfold globalFacts
  split
  · exact stackFacts_quiet _ _ _ _ _
  · exact .nil

/-! ### Stores -/

/-- A store records the function it stores first, then its field and its global. -/
theorem storeFacts_of_func (sc : Scanner) {fr : Frame} {src : Value} {f : Nat}
    (h : fr.strip src = .const (.func f)) (dst : Value) (memory : Memory) :
    (sc.storeFacts fr src dst memory).1 = .taken f .store ::
      ((match (sc.resolve fr dst memory).1 with
        | some r => [.evidence f (sc.fieldSignature r) r.index]
        | none => []) ++
      match fr.baseGlobal? dst with
        | some g => if g.linkage.isLocal then [] else [.published f g.name]
        | none => []) := by
  simp only [storeFacts, h]
  rfl

theorem storeFacts_of_not_func (sc : Scanner) {fr : Frame} {src : Value}
    (h : ∀ f, fr.strip src ≠ .const (.func f)) (dst : Value) (memory : Memory) :
    (sc.storeFacts fr src dst memory).1 = operandFacts sc.view fr .store src := by
  cases hs : fr.strip src with
  | const c =>
    cases c with
    | func f => exact absurd hs (h f)
    | _ =>
      simp only [storeFacts, hs]
      rfl
  | _ =>
    simp only [storeFacts, hs]
    rfl

theorem storeFacts_quiet (sc : Scanner) (fr : Frame) (src dst : Value) (memory : Memory) :
    Quiet (sc.storeFacts fr src dst memory).1 := by
  by_cases hf : ∃ f, fr.strip src = .const (.func f)
  · obtain ⟨f, hf⟩ := hf
    rw [sc.storeFacts_of_func hf]
    generalize (sc.resolve fr dst memory).1 = field
    generalize fr.baseGlobal? dst = global
    cases field <;> cases global with
    | none => constructor <;> simp [Grounded, Fact.call?]
    | some g =>
      cases hg : g.linkage.isLocal <;> constructor <;> simp [Grounded, Fact.call?, hg]
  · rw [sc.storeFacts_of_not_func (not_exists.mp hf)]
    exact operandFacts_quiet _ _ _ _

/-! ### Steps -/

def indirect? (sc : Scanner) : Step → Option CallId
  | .inst f id i =>
    match i.op with
    | .call c => if isDirect ⟨sc.module, some f⟩ c.callee then none else some id
    | _ => none
  | .term _ _ => none

/-- The cause for which a step ends the scan: an indirect call without a function type. -/
def unsigned? (sc : Scanner) : Step → Option NoSignature
  | .inst f _ i =>
    match i.op with
    | .call c =>
      if isDirect ⟨sc.module, some f⟩ c.callee || (sc.module.callType? f c).isSome then none
      else some ⟨Location.ofInst? i, sc.path, f.name⟩
    | _ => none
  | .term _ _ => none

/-- The record of an indirect call of a known function type, as a scan makes it. -/
def siteOf (sc : Scanner) (f : Func) (id : CallId) (c : Call) (t : Ty) (memory : Memory) :
    CallSite where
  id := id
  caller := some ⟨id.module, id.func⟩
  module := sc.path
  sig := .ofFuncType t
  provenance := (sc.provenance ⟨sc.module, some f⟩ c.callee memory).1
  layer := .unmatched
  callees := []

def argFacts (sc : Scanner) (f : Func) (c : Call) : List Fact :=
  c.args.flatMap (operandFacts sc.view ⟨sc.module, some f⟩ .argument)

/-- What a step finds: facts without a call, or a failure, or a call behind the facts of its
arguments. -/
inductive Finds (sc : Scanner) (memory : Memory) : Step → Found → Prop where
  | quiet {s : Step} {facts : List Fact} (facts_quiet : Quiet facts)
      (no_call : sc.indirect? s = none) (no_failure : sc.unsigned? s = none) :
      Finds sc memory s ⟨facts, none⟩
  | failure {f : Func} {id : CallId} {i : Inst} {e : NoSignature} {facts : List Fact}
      (facts_quiet : Quiet facts) (unsigned : sc.unsigned? (.inst f id i) = some e) :
      Finds sc memory (.inst f id i) ⟨facts, some e⟩
  | call {f : Func} {id : CallId} {i : Inst} {c : Call} {t : Ty} {facts : List Fact}
      (facts_quiet : Quiet facts) (op : i.op = .call c)
      (indirect : isDirect ⟨sc.module, some f⟩ c.callee = false)
      (type : sc.module.callType? f c = some t) :
      Finds sc memory (.inst f id i) ⟨facts ++ [.call (sc.siteOf f id c t memory)], none⟩

theorem callFacts_finds (sc : Scanner) (f : Func) (id : CallId) {c : Call} {i : Inst}
    (hop : i.op = .call c) (memory : Memory) :
    sc.Finds memory (.inst f id i) (sc.callFacts f id c i memory).1 := by
  have hargs : Quiet (sc.argFacts f c) := operandsFacts_quiet _ _ _ _
  cases hdir : isDirect ⟨sc.module, some f⟩ c.callee with
  | true =>
    have hfacts : (sc.callFacts f id c i memory).1 = ⟨sc.argFacts f c, none⟩ := by
      simp only [callFacts, hdir, if_true]
      rfl
    rw [hfacts]
    exact .quiet hargs (by simp [indirect?, hop, hdir]) (by simp [unsigned?, hop, hdir])
  | false =>
    cases ht : sc.module.callType? f c with
    | none =>
      have hfacts : (sc.callFacts f id c i memory).1 =
          ⟨sc.argFacts f c, some ⟨Location.ofInst? i, sc.path, f.name⟩⟩ := by
        simp only [callFacts, hdir, ht, Bool.false_eq_true, if_false]
        rfl
      rw [hfacts]
      exact .failure hargs (by simp [unsigned?, hop, hdir, ht])
    | some t =>
      have hfacts : (sc.callFacts f id c i memory).1 =
          ⟨sc.argFacts f c ++ [.call (sc.siteOf f id c t memory)], none⟩ := by
        simp only [callFacts, hdir, ht, Bool.false_eq_true, if_false]
        rfl
      rw [hfacts]
      exact .call hargs hop hdir ht

theorem stepFacts_finds (sc : Scanner) (s : Step) (memory : Memory) :
    sc.Finds memory s (sc.stepFacts s memory).1 := by
  cases s with
  | term f t =>
    refine .quiet ?_ rfl rfl
    cases t with
    | ret v =>
      cases v with
      | none => exact .nil
      | some v => exact operandFacts_quiet _ _ _ v
    | invoke args => exact operandsFacts_quiet _ _ _ args
    | other => exact .nil
  | inst f id i =>
    rw [stepFacts]
    cases hop : i.op with
    | call c =>
      simp only [instFacts, hop]
      exact sc.callFacts_finds f id hop memory
    | store src dst =>
      simp only [instFacts, hop]
      exact .quiet (sc.storeFacts_quiet _ src dst memory) (by simp [indirect?, hop])
        (by simp [unsigned?, hop])
    | _ =>
      simp only [instFacts, hop]
      exact .quiet (operandsFacts_quiet _ _ _ _) (by simp [indirect?, hop])
        (by simp [unsigned?, hop])

theorem stepFacts_failure (sc : Scanner) (s : Step) (memory : Memory) :
    (sc.stepFacts s memory).1.failure = sc.unsigned? s := by
  have hfinds := sc.stepFacts_finds s memory
  generalize (sc.stepFacts s memory).1 = found at hfinds ⊢
  cases hfinds with
  | quiet _ _ h => exact h.symm
  | failure _ h => exact h.symm
  | call _ op indirect type => simp [unsigned?, op, indirect, type]

theorem stepFacts_grounded (sc : Scanner) (s : Step) (memory : Memory) :
    Grounded [] (sc.stepFacts s memory).1.facts := by
  have hfinds := sc.stepFacts_finds s memory
  generalize (sc.stepFacts s memory).1 = found at hfinds ⊢
  cases hfinds with
  | quiet h _ _ => exact h.grounded
  | failure h _ => exact h.grounded
  | call h _ _ _ => exact h.grounded.append trivial

/-- A step that does not fail records the indirect call that it is, and no other. -/
theorem stepFacts_calls (sc : Scanner) {s : Step} (hs : sc.unsigned? s = none)
    (memory : Memory) :
    ((sc.stepFacts s memory).1.facts.filterMap Fact.call?).map CallSite.id =
      (sc.indirect? s).toList := by
  have hfinds := sc.stepFacts_finds s memory
  generalize (sc.stepFacts s memory).1 = found at hfinds ⊢
  cases hfinds with
  | quiet h hcall _ => rw [h.no_call, hcall]; rfl
  | failure _ h => rw [hs] at h; cases h
  | call h op indirect type =>
    rw [List.filterMap_append, h.no_call]
    simp [indirect?, op, indirect, Fact.call?, siteOf]

/-! ### Runs through steps -/

/-- The facts of steps in order, each with the layouts remembered so far. -/
def factsAlong (sc : Scanner) : List Step → Memory → List Fact
  | [], _ => []
  | s :: rest, memory =>
    (sc.stepFacts s memory).1.facts ++ sc.factsAlong rest (sc.stepFacts s memory).2

def Signed (sc : Scanner) : Prop := ∀ s ∈ sc.steps, sc.unsigned? s = none

theorem runSteps_cons (sc : Scanner) (s : Step) (rest : List Step) (before : List (List Fact))
    (memory : Memory) :
    sc.runSteps (s :: rest) before memory =
      match sc.unsigned? s with
      | some e => (⟨before.reverse.flatten, some ((sc.stepFacts s memory).1.facts, e)⟩,
          (sc.stepFacts s memory).2)
      | none => sc.runSteps rest ((sc.stepFacts s memory).1.facts :: before)
          (sc.stepFacts s memory).2 := by
  rw [← sc.stepFacts_failure s memory]
  simp only [runSteps, bind, StateT.bind]
  generalize sc.stepFacts s memory = found
  obtain ⟨⟨facts, failure⟩, memory'⟩ := found
  cases failure <;> rfl

theorem runSteps_failure (sc : Scanner) (steps : List Step) (before : List (List Fact))
    (memory : Memory) :
    (sc.runSteps steps before memory).1.failure.map Prod.snd = steps.findSome? sc.unsigned? := by
  induction steps generalizing before memory with
  | nil => rfl
  | cons s rest ih =>
    rw [runSteps_cons, List.findSome?_cons]
    cases sc.unsigned? s with
    | some e => rfl
    | none => exact ih _ _

theorem runSteps_facts (sc : Scanner) {steps : List Step} (h : ∀ s ∈ steps, sc.unsigned? s = none)
    (before : List (List Fact)) (memory : Memory) :
    (sc.runSteps steps before memory).1 =
      ⟨before.reverse.flatten ++ sc.factsAlong steps memory, none⟩ := by
  induction steps generalizing before memory with
  | nil =>
    rw [factsAlong, List.append_nil]
    rfl
  | cons s rest ih =>
    rw [runSteps_cons, h s List.mem_cons_self]
    simp only []
    rw [ih (fun t ht => h t (List.mem_cons_of_mem s ht))]
    simp [factsAlong]

theorem factsAlong_grounded (sc : Scanner) (steps : List Step) (memory : Memory) :
    Grounded [] (sc.factsAlong steps memory) := by
  induction steps generalizing memory with
  | nil => trivial
  | cons s rest ih => exact (sc.stepFacts_grounded s memory).append (ih _)

theorem factsAlong_calls (sc : Scanner) {steps : List Step}
    (h : ∀ s ∈ steps, sc.unsigned? s = none) (memory : Memory) :
    ((sc.factsAlong steps memory).filterMap Fact.call?).map CallSite.id =
      steps.filterMap sc.indirect? := by
  induction steps generalizing memory with
  | nil => rfl
  | cons s rest ih =>
    rw [factsAlong, List.filterMap_append, List.map_append,
      sc.stepFacts_calls (h s List.mem_cons_self),
      ih (fun t ht => h t (List.mem_cons_of_mem s ht))]
    cases hs : sc.indirect? s <;> simp [hs]

theorem mem_factsAlong {sc : Scanner} {steps : List Step} {memory : Memory} {fact : Fact}
    (h : fact ∈ sc.factsAlong steps memory) :
    ∃ s ∈ steps, ∃ memory', fact ∈ (sc.stepFacts s memory').1.facts := by
  induction steps generalizing memory with
  | nil => cases h
  | cons s rest ih =>
    rcases List.mem_append.mp h with h | h
    · exact ⟨s, List.mem_cons_self, memory, h⟩
    · obtain ⟨t, ht, memory', hfact⟩ := ih h
      exact ⟨t, List.mem_cons_of_mem s ht, memory', hfact⟩

/-! ### Positions -/

def Step.position? : Step → Option CallId
  | .inst _ id _ => some id
  | .term _ _ => none

theorem mem_steps_inst {sc : Scanner} {f : Func} {id : CallId} {i : Inst} :
    Step.inst f id i ∈ sc.steps ↔
      id.module = sc.index ∧ sc.module.funcs[id.func]? = some f ∧
        f.inst? id.block id.inst = some i := by
  simp only [steps, blockSteps, List.mem_flatMap, List.mem_append, List.mem_map, List.mem_singleton,
    Prod.exists, List.mk_mem_zipIdx_iff_getElem?, reduceCtorEq, or_false, Step.inst.injEq]
  constructor
  · rintro ⟨g, n, hg, b, k, hb, j, r, hj, rfl, rfl, rfl⟩
    exact ⟨rfl, hg, by simp [Func.inst?, hb, hj]⟩
  · rintro ⟨hmod, hf, hi⟩
    obtain ⟨b, hb, hj⟩ := Option.bind_eq_some_iff.mp hi
    exact ⟨f, id.func, hf, b, id.block, hb, i, id.inst, hj, rfl, by rw [← hmod], rfl⟩

private theorem nodup_flatMap_zipIdx {α β : Type} {l : List α} {g : α × Nat → List β} (π : β → Nat)
    (hπ : ∀ x, ∀ b ∈ g x, π b = x.2) (hg : ∀ x, (g x).Nodup) : (l.zipIdx.flatMap g).Nodup := by
  rw [List.nodup_flatMap]
  refine ⟨fun x _ => hg x, ?_⟩
  have hidx : (l.zipIdx.map Prod.snd).Nodup := by
    rw [List.zipIdx_map_snd]
    exact List.nodup_range'
  rw [List.nodup_map_iff_inj_on (List.Nodup.of_map _ hidx)] at hidx
  refine (List.Nodup.of_map _ (by rw [List.zipIdx_map_snd]; exact List.nodup_range')
    : l.zipIdx.Nodup).imp_of_mem ?_
  intro x y hx hy hne b hbx hby
  apply hne
  apply hidx x hx y hy
  rw [← hπ x b hbx, hπ y b hby]

theorem blockSteps_positions (module func : Nat) (f : Func) (block : Nat) (b : Block) :
    (blockSteps module func f block b).filterMap Step.position? =
      (List.range b.insts.length).map fun n => ⟨module, func, block, n⟩ := by
  have hlast : [Step.term f b.term].filterMap Step.position? = [] := rfl
  rw [blockSteps, List.filterMap_append, hlast, List.append_nil, List.filterMap_map,
    List.range_eq_range', ← List.zipIdx_map_snd, List.map_map]
  exact congrFun List.filterMap_eq_map b.insts.zipIdx

theorem positions_nodup (sc : Scanner) : (sc.steps.filterMap Step.position?).Nodup := by
  unfold steps
  simp only [List.filterMap_flatMap, blockSteps_positions]
  apply nodup_flatMap_zipIdx CallId.func
  · rintro ⟨f, n⟩ id hid
    obtain ⟨⟨b, k⟩, -, hid⟩ := List.mem_flatMap.mp hid
    obtain ⟨j, -, rfl⟩ := List.mem_map.mp hid
    rfl
  · rintro ⟨f, n⟩
    apply nodup_flatMap_zipIdx CallId.block
    · rintro ⟨b, k⟩ id hid
      obtain ⟨j, -, rfl⟩ := List.mem_map.mp hid
      rfl
    · rintro ⟨b, k⟩
      apply List.nodup_range.map
      rintro j j' hj
      exact congrArg CallId.inst hj

theorem position?_of_indirect? {sc : Scanner} {s : Step} {id : CallId}
    (h : sc.indirect? s = some id) : s.position? = some id := by
  unfold indirect? at h
  split at h
  · split at h
    · split at h
      · cases h
      · exact h
    · cases h
  · cases h

theorem indirect_nodup (sc : Scanner) : (sc.steps.filterMap sc.indirect?).Nodup := by
  have hsub (steps : List Step) :
      (steps.filterMap sc.indirect?).Sublist (steps.filterMap Step.position?) := by
    induction steps with
    | nil => exact .slnil
    | cons s rest ih =>
      cases hs : sc.indirect? s with
      | none =>
        rw [List.filterMap_cons_none hs]
        exact ih.trans ((List.sublist_cons_self s rest).filterMap _)
      | some id =>
        rw [List.filterMap_cons_some hs, List.filterMap_cons_some (position?_of_indirect? hs)]
        exact ih.cons_cons id
  exact sc.positions_nodup.sublist (hsub sc.steps)

/-! ### Scans -/

def found (sc : Scanner) (memory : Memory) : List Fact :=
  sc.module.globals.flatMap sc.globalFacts ++ sc.factsAlong sc.steps memory

/-- Whether a first scan comes to a search without an end. -/
def stalls (sc : Scanner) : Bool :=
  (sc.scan .empty).2.endless

theorem scan_of_signed {sc : Scanner} (h : sc.Signed) (memory : Memory) :
    (sc.scan memory).1 = ⟨sc.found memory, none⟩ := by
  rw [scan, sc.runSteps_facts h, found]
  simp

/-- A scan fails at the first indirect call without a function type, if there is one. -/
theorem scan_failure (sc : Scanner) (memory : Memory) :
    (sc.scan memory).1.failure.map Prod.snd = sc.steps.findSome? sc.unsigned? :=
  sc.runSteps_failure _ _ memory

theorem scan_failure_eq_none (sc : Scanner) (memory : Memory) :
    (sc.scan memory).1.failure = none ↔ sc.Signed := by
  rw [← Option.map_eq_none_iff (f := Prod.snd), sc.scan_failure, List.findSome?_eq_none_iff, Signed]

theorem found_grounded (sc : Scanner) (memory : Memory) : Grounded [] (sc.found memory) :=
  (Quiet.flatMap fun g _ => sc.globalFacts_quiet g).grounded.append
    (sc.factsAlong_grounded _ memory)

theorem found_calls {sc : Scanner} (h : sc.Signed) (memory : Memory) :
    ((sc.found memory).filterMap Fact.call?).map CallSite.id = sc.steps.filterMap sc.indirect? := by
  have hglobals :=
    (Quiet.flatMap fun g (_ : g ∈ sc.module.globals) => sc.globalFacts_quiet g).no_call
  rw [found, List.filterMap_append, hglobals, List.nil_append, sc.factsAlong_calls h]

/-- A recorded call is an indirect call of the module, recorded as it stands there. -/
theorem call_mem_found {sc : Scanner} {memory : Memory} {cs : CallSite}
    (h : Fact.call cs ∈ sc.found memory) :
    ∃ f id i c t memory', Step.inst f id i ∈ sc.steps ∧ i.op = .call c ∧
      isDirect ⟨sc.module, some f⟩ c.callee = false ∧ sc.module.callType? f c = some t ∧
      cs = sc.siteOf f id c t memory' := by
  have hcall {facts : List Fact} (hq : Quiet facts) : Fact.call cs ∉ facts := by
    intro hmem
    have : cs ∈ facts.filterMap Fact.call? := List.mem_filterMap.mpr ⟨_, hmem, rfl⟩
    rw [hq.no_call] at this
    cases this
  rcases List.mem_append.mp h with h | h
  · exact absurd h (hcall (.flatMap fun g _ => sc.globalFacts_quiet g))
  · obtain ⟨s, hs, memory', hfact⟩ := mem_factsAlong h
    have hfinds := sc.stepFacts_finds s memory'
    generalize (sc.stepFacts s memory').1 = found at hfinds hfact
    cases hfinds with
    | quiet hq => exact absurd hfact (hcall hq)
    | failure hq => exact absurd hfact (hcall hq)
    | @call f id i c t facts hq op indirect type =>
      rcases List.mem_append.mp hfact with hfact | hfact
      · exact absurd hfact (hcall hq)
      · rw [List.mem_singleton] at hfact
        cases hfact
        exact ⟨f, id, i, c, t, memory', hs, op, indirect, type, rfl⟩

end Scanner
end CallTargets
