import CallTargets.Proofs.Discovery.Borrowing
import CallTargets.Proofs.Discovery.Order
import CallTargets.Proofs.Discovery.Reordering

/-!
# Modules under other numbers

Everything that a scan finds is numbered by the position of its module, so in another order of the
modules the same functions and calls have other numbers. If every external name has at most one
body, and the structs written in place borrow the same names, then the modules tell the same of each
function under its new number, and the same of each call.
-/
namespace CallTargets

open IR

/-! ### Numbers -/

def CallId.moveTo (module : Nat) (id : CallId) : CallId := { id with module := module }

def CallSite.moveTo (module : Nat) (cs : CallSite) : CallSite := { cs with
  id := cs.id.moveTo module
  caller := cs.caller.map fun f => { f with module := module } }

def Fact.moveTo (module : Nat) : Fact → Fact
  | .call cs => .call (cs.moveTo module)
  | fact => fact

def Found.moveTo (module : Nat) (found : Found) : Found :=
  { found with facts := found.facts.map (Fact.moveTo module) }

theorem Fact.func?_moveTo (module : Nat) (fact : Fact) :
    (fact.moveTo module).func? = fact.func? := by
  cases fact <;> rfl

theorem Fact.call?_moveTo (module : Nat) (fact : Fact) :
    (fact.moveTo module).call? = fact.call?.map (CallSite.moveTo module) := by
  cases fact <;> rfl

theorem Fact.moveTo_of_func {module f : Nat} {fact : Fact} (h : fact.func? = some f) :
    fact.moveTo module = fact := by
  cases fact with
  | call cs => cases h
  | _ => rfl

theorem Quiet.map_moveTo {facts : List Fact} (h : Quiet facts) (module : Nat) :
    facts.map (Fact.moveTo module) = facts := by
  have hsame : ∀ fact ∈ facts, fact.moveTo module = id fact := by
    intro fact hfact
    have hcall := List.filterMap_eq_nil_iff.mp h.no_call fact hfact
    cases fact with
    | call cs => cases hcall
    | _ => rfl
  rw [List.map_congr_left hsame, List.map_id]

/-! ### Scans of one module under two numbers -/

namespace Scanner

def Step.moveTo (module : Nat) : Step → Step
  | .inst f id i => .inst f (id.moveTo module) i
  | .term f t => .term f t

theorem term_operands {sc : Scanner} {f : Func} {t : Terminator} (h : .term f t ∈ sc.steps) :
    t.operands ⊆ f.operands := by
  obtain ⟨n, f', -, k, b, hb, hs⟩ := mem_steps.mp h
  rcases List.mem_append.mp hs with hs | hs
  · obtain ⟨x, -, heq⟩ := List.mem_map.mp hs
    cases heq
  · cases List.mem_singleton.mp hs
    intro v hv
    exact List.mem_flatMap.mpr ⟨b, List.mem_of_getElem? hb, List.mem_append_right _ hv⟩

/-- Two scanners of one module, which see alike the types that it writes. -/
structure Twin (sc sc' : Scanner) : Prop where
  path : sc'.path = sc.path
  module : sc'.module = sc.module
  layout : sc'.layout = sc.layout
  defs : sc.layout.defs = sc.module.typeDefs
  signature : ∀ t, sc.module.Writes t → sc'.view.signature t = sc.view.signature t

namespace Twin

variable {sc sc' : Scanner} (h : sc.Twin sc')

include h

theorem constant_signature :
    ∀ t ∈ sc.module.constantTypes, sc'.view.signature t = sc.view.signature t :=
  fun t ht => h.signature t (Module.writes_of_written (List.mem_append_right _ ht))

theorem resolve_eq (fr : Frame) (addr : Value) : sc'.resolve fr addr = sc.resolve fr addr := by
  funext memory
  rw [resolve, resolve, h.layout]

theorem fieldSignature_eq {f : Func} (hf : f ∈ sc.module.funcs) {addr : Value}
    (haddr : addr ∈ f.operands) {memory : Memory} {r : FieldRef}
    (hr : (sc.resolve ⟨sc.module, some f⟩ addr memory).1 = some r) :
    sc'.fieldSignature r = sc.fieldSignature r := by
  apply h.signature
  apply Module.writes_toTy
  unfold resolve at hr
  split at hr
  · next field layouts hrun =>
    exact Layout.resolve_written h.defs hf haddr memory.layouts field layouts hrun r hr
  · cases hr

theorem provenance_eq {f : Func} (hf : f ∈ sc.module.funcs) (callee : Option Value) :
    sc'.provenance ⟨sc.module, some f⟩ callee = sc.provenance ⟨sc.module, some f⟩ callee := by
  unfold provenance
  split
  · next elem src hload =>
    obtain ⟨inst, hinst, hop⟩ := Option.map_eq_some_iff.mp hload
    obtain ⟨v, -, hv⟩ := Option.bind_eq_some_iff.mp hinst
    have hsrc : src ∈ f.operands :=
      Frame.operand_of_inst? (m := sc.module) (Option.map_eq_some_iff.mpr ⟨inst, hv, hop⟩)
        List.mem_cons_self
    funext memory
    simp only [h.resolve_eq, bind, StateT.bind]
    have hfield : ∀ r, (sc.resolve ⟨sc.module, some f⟩ src memory).1 = some r →
        sc'.fieldSignature r = sc.fieldSignature r := fun r => h.fieldSignature_eq hf hsrc
    generalize sc.resolve ⟨sc.module, some f⟩ src memory = out at hfield ⊢
    obtain ⟨found, memory'⟩ := out
    cases found with
    | none => rfl
    | some r => simp only [hfield r rfl]
  · rfl

theorem operandsFacts_eq {f : Func} (hf : f ∈ sc.module.funcs) {operands : List Value}
    (hoperands : operands ⊆ f.operands) (how : Escapes) :
    operands.flatMap (operandFacts sc'.view ⟨sc.module, some f⟩ how) =
      operands.flatMap (operandFacts sc.view ⟨sc.module, some f⟩ how) :=
  List.flatMap_congr fun _ hv => operandFacts_congr h.constant_signature hf (hoperands hv) how

theorem storeFacts_eq {f : Func} (hf : f ∈ sc.module.funcs) {src dst : Value}
    (hsrc : src ∈ f.operands) (hdst : dst ∈ f.operands) :
    sc'.storeFacts ⟨sc.module, some f⟩ src dst = sc.storeFacts ⟨sc.module, some f⟩ src dst := by
  unfold storeFacts
  split
  · funext memory
    simp only [h.resolve_eq, bind, StateT.bind]
    have hfield : ∀ r, (sc.resolve ⟨sc.module, some f⟩ dst memory).1 = some r →
        sc'.fieldSignature r = sc.fieldSignature r := fun r => h.fieldSignature_eq hf hdst
    generalize sc.resolve ⟨sc.module, some f⟩ dst memory = out at hfield ⊢
    obtain ⟨found, memory'⟩ := out
    cases found with
    | none => rfl
    | some r => simp only [hfield r rfl]
  · rw [operandFacts_congr h.constant_signature hf hsrc]

theorem globalFacts_eq {g : Global} (hg : g ∈ sc.module.globals) :
    sc'.globalFacts g = sc.globalFacts g := by
  unfold globalFacts
  split
  · next c hc =>
    apply constantFacts_congr
    intro t ht
    apply h.constant_signature
    exact List.mem_append_left _ (List.mem_flatMap.mpr ⟨g, hg, by simpa [hc] using ht⟩)
  · rfl

theorem termFacts_eq {f : Func} (hf : f ∈ sc.module.funcs) {t : Terminator}
    (ht : t.operands ⊆ f.operands) : sc'.termFacts f t = sc.termFacts f t := by
  cases t with
  | ret v =>
    cases v with
    | none => rfl
    | some v =>
      simp only [termFacts, h.module]
      exact operandFacts_congr h.constant_signature hf (ht (List.mem_singleton_self v)) _
  | invoke args =>
    simp only [termFacts, h.module]
    exact h.operandsFacts_eq hf ht _
  | other => rfl

theorem callFacts_eq {f : Func} (hf : f ∈ sc.module.funcs) (id : CallId) {c : Call}
    (hc : (Op.call c).operands ⊆ f.operands) (i : Inst) (memory : Memory) :
    sc'.callFacts f (id.moveTo sc'.index) c i memory =
      ((sc.callFacts f id c i memory).1.moveTo sc'.index, (sc.callFacts f id c i memory).2) := by
  have hargs := (operandsFacts_quiet sc.view ⟨sc.module, some f⟩ .argument c.args).map_moveTo
    sc'.index
  have hsame : c.args.flatMap (operandFacts sc'.view ⟨sc.module, some f⟩ .argument) =
      c.args.flatMap (operandFacts sc.view ⟨sc.module, some f⟩ .argument) :=
    h.operandsFacts_eq hf (fun v hv => hc (List.mem_append_left _ hv)) _
  unfold callFacts
  simp only [h.module, h.path, h.provenance_eq hf, hsame]
  cases isDirect ⟨sc.module, some f⟩ c.callee with
  | true => exact congrArg (fun facts => (Found.ofFacts facts, memory)) hargs.symm
  | false =>
    simp only [Bool.false_eq_true, if_false]
    cases sc.module.callType? f c with
    | none => exact congrArg (fun facts => (Found.mk facts _, memory)) hargs.symm
    | some t =>
      have hall : (sc.argFacts f c ++ [Fact.call (sc.siteOf f id c t memory)]).map
          (Fact.moveTo sc'.index) =
            sc.argFacts f c ++ [.call ((sc.siteOf f id c t memory).moveTo sc'.index)] := by
        rw [List.map_append, argFacts, hargs]
        rfl
      exact congrArg (fun facts => (Found.ofFacts facts,
        (sc.provenance ⟨sc.module, some f⟩ c.callee memory).2)) hall.symm

theorem stepFacts_eq {s : Step} (hs : s ∈ sc.steps) (memory : Memory) :
    sc'.stepFacts (s.moveTo sc'.index) memory =
      ((sc.stepFacts s memory).1.moveTo sc'.index, (sc.stepFacts s memory).2) := by
  have hquiet {facts : List Fact} (hfacts : Quiet facts) :
      Found.ofFacts facts = (Found.ofFacts facts).moveTo sc'.index := by
    simp only [Found.moveTo, Found.ofFacts, hfacts.map_moveTo]
  cases s with
  | term f t =>
    have hf : f ∈ sc.module.funcs := func_mem_of_step hs
    have hterm := sc.stepFacts_finds (.term f t) memory
    simp only [Step.moveTo, stepFacts, h.termFacts_eq hf (term_operands hs)]
    cases hterm with
    | quiet hfacts => exact congrArg (·, memory) (hquiet hfacts)
  | inst f id i =>
    have hf : f ∈ sc.module.funcs := func_mem_of_step hs
    have hoperands : i.op.operands ⊆ f.operands := by
      obtain ⟨-, -, hi⟩ := mem_steps_inst.mp hs
      obtain ⟨b, hb, hi⟩ := Frame.mem_insts hi
      exact fun v hv => Func.mem_operands_of_inst hb hi hv
    simp only [Step.moveTo, stepFacts, instFacts]
    cases hop : i.op with
    | call c => exact h.callFacts_eq hf id (hop ▸ hoperands) i memory
    | store src dst =>
      have hsrc : src ∈ f.operands := hoperands (by simp [hop, Op.operands])
      have hdst : dst ∈ f.operands := hoperands (by simp [hop, Op.operands])
      simp only [h.module, h.storeFacts_eq hf hsrc hdst, bind, StateT.bind]
      exact congrArg (·, _) (hquiet (sc.storeFacts_quiet _ src dst memory))
    | _ =>
      simp only [h.module]
      rw [h.operandsFacts_eq hf (hop ▸ hoperands)]
      exact congrArg (·, memory) (hquiet (operandsFacts_quiet _ _ _ _))

theorem factsAlong_eq {steps : List Step} (hsteps : steps ⊆ sc.steps) (memory : Memory) :
    sc'.factsAlong (steps.map (Step.moveTo sc'.index)) memory =
      (sc.factsAlong steps memory).map (Fact.moveTo sc'.index) := by
  induction steps generalizing memory with
  | nil => rfl
  | cons s steps ih =>
    obtain ⟨hs, hrest⟩ := List.cons_subset.mp hsteps
    rw [List.map_cons, factsAlong, factsAlong, h.stepFacts_eq hs, List.map_append, ← ih hrest]
    rfl

theorem steps_eq : sc'.steps = sc.steps.map (Step.moveTo sc'.index) := by
  simp only [steps, h.module, List.map_flatMap, blockSteps, List.map_append, List.map_map]
  rfl

theorem found_eq (memory : Memory) :
    sc'.found memory = (sc.found memory).map (Fact.moveTo sc'.index) := by
  have hglobals : Quiet (sc.module.globals.flatMap sc.globalFacts) :=
    .flatMap fun g _ => sc.globalFacts_quiet g
  have hsame : sc.module.globals.flatMap sc'.globalFacts =
      sc.module.globals.flatMap sc.globalFacts := List.flatMap_congr fun g hg => h.globalFacts_eq hg
  rw [found, found, h.module, hsame, h.steps_eq, h.factsAlong_eq (List.Subset.refl _),
    List.map_append, hglobals.map_moveTo]

theorem unsigned?_eq (s : Step) : sc'.unsigned? (s.moveTo sc'.index) = sc.unsigned? s := by
  cases s <;> simp only [Step.moveTo, unsigned?, h.module, h.path]

theorem signed_iff : sc'.Signed ↔ sc.Signed := by
  simp only [Signed, h.steps_eq, List.forall_mem_map, h.unsigned?_eq]

theorem runSteps_memory_eq {steps : List Step} (hsteps : steps ⊆ sc.steps)
    (before before' : List (List Fact)) (memory : Memory) :
    (sc'.runSteps (steps.map (Step.moveTo sc'.index)) before' memory).2 =
      (sc.runSteps steps before memory).2 := by
  induction steps generalizing before before' memory with
  | nil => rfl
  | cons s steps ih =>
    obtain ⟨hs, hrest⟩ := List.cons_subset.mp hsteps
    rw [List.map_cons, runSteps_cons, runSteps_cons, h.unsigned?_eq, h.stepFacts_eq hs]
    cases sc.unsigned? s with
    | none => exact ih hrest _ _ _
    | some e => rfl

/-- The module is searched in the same way under both numbers. -/
theorem stalls_eq : sc'.stalls = sc.stalls := by
  rw [stalls, stalls, scan, scan, h.steps_eq, h.runSteps_memory_eq (List.Subset.refl _)]

end Twin
end Scanner

/-! ### What the modules tell -/

def FuncInfo.moveBy (σ : Nat → Nat) (fi : FuncInfo) : FuncInfo := { fi with id := fi.id.moveBy σ }

theorem FuncInfo.learn_moveBy (σ : Nat → Nat) (fi : FuncInfo) (fact : Fact) :
    (fi.moveBy σ).learn fact = (fi.learn fact).moveBy σ := by
  cases fact with
  | taken f how =>
    by_cases hknown : fi.escapes.includes how = true <;> simp [learn, markEscape, moveBy, hknown]
  | evidence f owner field =>
    by_cases hknown : owner.layered (Int64.ofNat field) ∈ fi.evidence <;>
      simp [learn, addEvidence, moveBy, hknown]
  | published f g =>
    by_cases hknown : g ∈ fi.published <;> simp [learn, publish, moveBy, hknown]
  | call cs => rfl

theorem FuncInfo.foldl_learn_moveBy (σ : Nat → Nat) (facts : List Fact) (fi : FuncInfo) :
    facts.foldl learn (fi.moveBy σ) = (facts.foldl learn fi).moveBy σ := by
  induction facts generalizing fi with
  | nil => rfl
  | cons fact facts ih => rw [List.foldl_cons, learn_moveBy, ih, List.foldl_cons]

namespace Pass

/-- Two passes over one program in different orders. No name has two bodies, and the shapes written
in place have the same names. -/
structure Moves (pass pass' : Pass) (σ : Nat → Nat) : Prop where
  reorders : pass.program.Reorders pass'.program σ
  oneBody : pass.program.OneBody
  names : ∀ m ∈ pass.program.contents, ∀ shape ∈ m.shapesInPlace,
    pass'.names.lookup shape = pass.names.lookup shape

namespace Moves

variable {pass pass' : Pass} {σ : Nat → Nat} (h : pass.Moves pass' σ)

include h

theorem holds_iff {i : Nat} (hi : i < pass.program.length) {path : ByteString} {m : Module} :
    pass'.Holds (σ i) path m ↔ pass.Holds i path m := by
  rw [Holds, Holds, h.reorders.file i hi]

theorem signature_eq {i : Nat} {path : ByteString} {m : Module} (hfile : pass.Holds i path m)
    {t : Ty} (ht : m.Writes t) :
    (⟨pass'.names, m.typeDefs⟩ : TypeView).signature t =
      (⟨pass.names, m.typeDefs⟩ : TypeView).signature t := by
  have hm : m ∈ pass.program.contents :=
    List.mem_filterMap.mpr ⟨_, List.mem_of_getElem? hfile, rfl⟩
  exact TypeView.signature_eq_of_writes (h.names m hm) ht

theorem twin {i : Nat} {path : ByteString} {m : Module} (hfile : pass.Holds i path m) :
    (pass.scanner i path m).Twin (pass'.scanner (σ i) path m) :=
  ⟨rfl, rfl, rfl, rfl, fun _ ht => h.signature_eq hfile ht⟩

theorem facts_eq {i : Nat} (hi : i < pass.program.length) :
    pass'.facts (σ i) = (pass.facts i).map (Fact.moveTo (σ i)) := by
  obtain ⟨path, m, hfile⟩ | hnot := pass.holds_or_empty i
  · have hfile' := (h.holds_iff hi).mpr hfile
    simp only [facts, hfile, hfile']
    exact (h.twin hfile).found_eq .empty
  · have hnot' : ∀ path m, ¬ pass'.Holds (σ i) path m := by
      intro path m hfile
      exact hnot path m ((h.holds_iff hi).mp hfile)
    rw [facts_of_empty hnot, facts_of_empty hnot']
    rfl

theorem stalls_eq {i : Nat} (hi : i < pass.program.length) :
    pass'.stalls (σ i) = pass.stalls i := by
  obtain ⟨path, m, hfile⟩ | hnot := pass.holds_or_empty i
  · have hfile' := (h.holds_iff hi).mpr hfile
    simp only [stalls, hfile, hfile']
    exact (h.twin hfile).stalls_eq
  · have hnot' : ∀ path m, ¬ pass'.Holds (σ i) path m := by
      intro path m hfile
      exact hnot path m ((h.holds_iff hi).mp hfile)
    rw [stalls_of_empty hnot, stalls_of_empty hnot']

theorem signed_iff {i : Nat} (hi : i < pass.program.length) :
    pass'.Signed (σ i) ↔ pass.Signed i := by
  simp only [Signed]
  refine forall₂_congr fun path m => ?_
  exact imp_congr_ctx (h.holds_iff hi) fun hfile => (h.twin hfile).signed_iff

theorem callsOf_eq {i : Nat} (hi : i < pass.program.length) :
    pass'.callsOf (σ i) = (pass.callsOf i).map (CallSite.moveTo (σ i)) := by
  rw [callsOf, callsOf, h.facts_eq hi, List.filterMap_map, List.map_filterMap]
  exact congrArg (List.filterMap · _) (funext fun fact => fact.call?_moveTo (σ i))

theorem home?_eq {i : Nat} (hi : i < pass.program.length) (f : Nat) :
    pass'.home? (σ i) f = (pass.home? i f).map (Symbol.moveBy σ) := by
  let id : FuncId := ⟨i, f⟩
  have hsymbol : pass'.program.symbol? (id.moveBy σ) =
      (pass.program.symbol? id).map (Symbol.moveBy σ) := h.reorders.symbol?_eq hi
  change (pass'.program.symbol? (id.moveBy σ)).map _ = ((pass.program.symbol? id).map _).map _
  rw [hsymbol, Option.map_map, Option.map_map]
  refine congrArg (Option.map · _) (funext fun s => ?_)
  have hdef := h.reorders.definition?_eq h.oneBody s.name
  have hcanonical {p : Program} (s : Symbol) : (Context.start default p.symbols).canonical s =
      if s.isLocal || s.isStrong then s else (p.definition? s.name).getD s := rfl
  have hlocal : (s.moveBy σ).isLocal = s.isLocal := rfl
  have hstrong : (s.moveBy σ).isStrong = s.isStrong := rfl
  have hname : (s.moveBy σ).name = s.name := rfl
  rw [Function.comp_apply, Function.comp_apply, hcanonical, hcanonical, hlocal, hstrong, hname,
    hdef]
  split
  · rfl
  · cases pass.program.definition? s.name <;> rfl

theorem subject?_eq {i : Nat} (hi : i < pass.program.length) (fact : Fact) :
    pass'.subject? (σ i) (fact.moveTo (σ i)) = (pass.subject? i fact).map (FuncId.moveBy σ) := by
  rw [subject?, subject?, fact.func?_moveTo]
  cases fact.func? with
  | none => rfl
  | some f =>
    rw [Option.bind_some, Option.bind_some, h.home?_eq hi, Option.map_map, Option.map_map]
    rfl

end Moves

theorem subject?_lt {pass : Pass} {i : Nat} {fact : Fact} {id : FuncId}
    (h : pass.subject? i fact = some id) : id.module < pass.program.length := by
  obtain ⟨f, -, h⟩ := Option.bind_eq_some_iff.mp h
  obtain ⟨s, hs, rfl⟩ := Option.map_eq_some_iff.mp h
  exact Program.lt_of_symbol? (home?_symbol hs)

namespace Moves

variable {pass pass' : Pass} {σ : Nat → Nat} (h : pass.Moves pass' σ)

include h

theorem subject?_eq_some {id : FuncId} (hid : id.module < pass.program.length) {i : Nat}
    (hi : i < pass.program.length) (fact : Fact) :
    pass'.subject? (σ i) (fact.moveTo (σ i)) = some (id.moveBy σ) ↔
      pass.subject? i fact = some id := by
  rw [h.subject?_eq hi, Option.map_eq_some_iff]
  constructor
  · rintro ⟨⟨m, k⟩, hsubject, heq⟩
    obtain ⟨m', k'⟩ := id
    obtain ⟨hm, rfl⟩ := FuncId.mk.inj heq
    cases h.reorders.inj (subject?_lt hsubject) hid hm
    exact hsubject
  · intro hsubject
    exact ⟨id, hsubject, rfl⟩

theorem factsAbout_eq {id : FuncId} (hid : id.module < pass.program.length) {i : Nat}
    (hi : i < pass.program.length) :
    pass'.factsAbout (id.moveBy σ) (σ i) = pass.factsAbout id i := by
  have hsame : ∀ fact ∈ pass.factsAbout id i, fact.moveTo (σ i) = fact := by
    intro fact hfact
    have hsubject : pass.subject? i fact = some id := by simpa using (List.mem_filter.mp hfact).2
    obtain ⟨f, hf, -⟩ := Option.bind_eq_some_iff.mp hsubject
    exact Fact.moveTo_of_func hf
  calc pass'.factsAbout (id.moveBy σ) (σ i)
      = (pass.factsAbout id i).map (Fact.moveTo (σ i)) := by
        simp only [factsAbout, h.facts_eq hi, List.filter_map, Function.comp_def,
          h.subject?_eq_some hid hi]
    _ = pass.factsAbout id i := (List.map_congr_left hsame).trans (List.map_id _)

/-- The modules tell the same of a function, in another order. -/
theorem history_perm {id : FuncId} (hid : id.module < pass.program.length) :
    (pass.history (List.range pass.program.length) id).Perm
      (pass'.history (List.range pass'.program.length) (id.moveBy σ)) := by
  have heq : pass.history (List.range pass.program.length) id =
      pass'.history ((List.range pass.program.length).map σ) (id.moveBy σ) := by
    rw [history, history, List.flatMap_map]
    exact List.flatMap_congr fun i hi => (h.factsAbout_eq hid (List.mem_range.mp hi)).symm
  rw [heq]
  exact h.reorders.perm.flatMap_right _

theorem blank_eq {id : FuncId} {s : Symbol} (hid : pass.program.symbol? id = some s) :
    pass'.blank (id.moveBy σ) = (pass.blank id).moveBy σ := by
  have hlt := Program.lt_of_symbol? hid
  have hpath : pass'.program.path (id.moveBy σ).module = pass.program.path id.module :=
    h.reorders.path_eq hlt
  obtain ⟨f, hf, -⟩ := Option.map_eq_some_iff.mp hid
  simp only [blank, h.reorders.func?_eq hlt, hf, hpath]
  rfl

/-- What holds of some module in the one order holds of it in the other. -/
theorem exists_iff {P P' : Nat → Prop} (hP : ∀ i < pass.program.length, P' (σ i) ↔ P i) :
    (∃ j ∈ List.range pass'.program.length, P' j) ↔ ∃ i ∈ List.range pass.program.length, P i := by
  constructor
  · rintro ⟨j, hj, hPj⟩
    obtain ⟨i, hi, rfl⟩ := List.mem_map.mp (h.reorders.perm.mem_iff.mpr hj)
    exact ⟨i, hi, (hP i (List.mem_range.mp hi)).mp hPj⟩
  · rintro ⟨i, hi, hPi⟩
    exact ⟨σ i, h.reorders.perm.mem_iff.mp (List.mem_map_of_mem hi),
      (hP i (List.mem_range.mp hi)).mpr hPi⟩

theorem forall_iff {P P' : Nat → Prop} (hP : ∀ i < pass.program.length, P' (σ i) ↔ P i) :
    (∀ j ∈ List.range pass'.program.length, P' j) ↔
      ∀ i ∈ List.range pass.program.length, P i := by
  have hexists : (∃ j ∈ List.range pass'.program.length, ¬ P' j) ↔
      ∃ i ∈ List.range pass.program.length, ¬ P i :=
    h.exists_iff fun i hi => not_congr (hP i hi)
  simpa only [not_exists, not_and, not_not] using not_congr hexists

theorem signed_all_iff : (∀ j ∈ List.range pass'.program.length, pass'.Signed j) ↔
    ∀ i ∈ List.range pass.program.length, pass.Signed i :=
  h.forall_iff fun _ hi => h.signed_iff hi

theorem stalls_all_iff : (∀ j ∈ List.range pass'.program.length, pass'.stalls j = false) ↔
    ∀ i ∈ List.range pass.program.length, pass.stalls i = false :=
  h.forall_iff fun _ hi => by rw [h.stalls_eq hi]

theorem marks_iff {i : Nat} (hi : i < pass.program.length) (s : Signature) :
    pass'.Marks (σ i) s ↔ pass.Marks i s := by
  simp only [Marks, h.holds_iff hi]
  refine exists₂_congr fun path m => and_congr_right fun hfile => ?_
  refine exists_congr fun st => and_congr_right fun hst => ?_
  rw [mark, mark, h.signature_eq hfile (Module.writes_toTy (m.structTypes_subset hst))]

theorem refers_iff {i : Nat} (hi : i < pass.program.length) (path global : ByteString) :
    pass'.Refers (σ i) path global ↔ pass.Refers i path global := by
  simp only [Refers, h.holds_iff hi]

end Moves

theorem symbol?_of_gathered {pass : Pass} {config : Config} {ms : List Nat} {id : FuncId}
    {fi : FuncInfo} (h : (pass.gathered config ms).info? id = some fi) :
    ∃ s, pass.program.symbol? id = some s := by
  rw [gathered_info?] at h
  split at h
  · cases h
  · next hne =>
    obtain ⟨fact, hfact⟩ := List.exists_mem_of_ne_nil _ hne
    obtain ⟨i, -, hi⟩ := List.mem_flatMap.mp hfact
    have hsubject : pass.subject? i fact = some id := by simpa using (List.mem_filter.mp hi).2
    obtain ⟨f, -, hhome⟩ := Option.bind_eq_some_iff.mp hsubject
    obtain ⟨s, hs, rfl⟩ := Option.map_eq_some_iff.mp hhome
    exact ⟨s, home?_symbol hs⟩

end Pass

/-- Two states that know the same functions under different numbers, and tell the same of them. -/
structure Context.Mirrors (σ : Nat → Nat) (c c' : Context) : Prop where
  forth : ∀ fi ∈ c.addressTaken, ∃ fi' ∈ c'.addressTaken, (fi.moveBy σ).Alike fi'
  back : ∀ fi' ∈ c'.addressTaken, ∃ fi ∈ c.addressTaken, (fi.moveBy σ).Alike fi'
  visible : ∀ module sig, c'.visibleIn module sig = c.visibleIn module sig
  references : ∀ module global, c'.references module global = c.references module global

namespace Pass

variable {pass pass' : Pass} {σ : Nat → Nat}

/-- The record of a function is the same under its new number. -/
theorem Moves.gathered_info?_rel (h : pass.Moves pass' σ)
    (hinj : Set.InjOn FuncInfo.disc pass.storedFields) (config : Config) {id : FuncId} {s : Symbol}
    (hid : pass.program.symbol? id = some s) :
    Option.Rel (fun fi fi' => (fi.moveBy σ).Alike fi')
      ((pass.gathered config (List.range pass.program.length)).info? id)
      ((pass'.gathered config (List.range pass'.program.length)).info? (id.moveBy σ)) := by
  have hperm := h.history_perm (Program.lt_of_symbol? hid)
  rw [gathered_info?, gathered_info?, h.blank_eq hid]
  by_cases hnil : pass.history (List.range pass.program.length) id = []
  · rw [if_pos hnil, if_pos (List.nil_perm.mp (hnil ▸ hperm))]
    exact .none
  · have hnil' : pass'.history (List.range pass'.program.length) (id.moveBy σ) ≠ [] := by
      intro hnil'
      exact hnil (List.perm_nil.mp (hnil' ▸ hperm))
    rw [if_neg hnil, if_neg hnil']
    refine .some ?_
    rw [← FuncInfo.foldl_learn_moveBy]
    exact FuncInfo.foldl_learn_alike hperm hinj (pass.history_slots _ id)
      (pass.blank_blank id).1 (pass.blank_blank id).2

theorem Moves.gathered_mirrors (h : pass.Moves pass' σ)
    (hinj : Set.InjOn FuncInfo.disc pass.storedFields) (config : Config) :
    (pass.gathered config (List.range pass.program.length)).Mirrors σ
      (pass'.gathered config (List.range pass'.program.length)) where
  forth fi hfi := by
    have hinfo := (pass.gathered_indexed config _).mem_addressTaken.mp hfi
    obtain ⟨s, hs⟩ := symbol?_of_gathered hinfo
    have hrel := h.gathered_info?_rel hinj config hs
    rw [hinfo] at hrel
    generalize hinfo' : (pass'.gathered config _).info? (fi.id.moveBy σ) = info' at hrel
    cases hrel with
    | some halike =>
      refine ⟨_, (pass'.gathered_indexed config _).mem_addressTaken.mpr ?_, halike⟩
      rw [halike.id]
      exact hinfo'
  back fi' hfi' := by
    have hinfo' := (pass'.gathered_indexed config _).mem_addressTaken.mp hfi'
    obtain ⟨s', hs'⟩ := symbol?_of_gathered hinfo'
    have hid' : s'.id = fi'.id := Program.id_of_symbol? hs'
    obtain ⟨s, hs, rfl⟩ := h.reorders.mem_symbols.mp (Program.mem_symbols_iff.mpr (hid' ▸ hs'))
    have hrel := h.gathered_info?_rel hinj config (Program.mem_symbols_iff.mp hs)
    have hid : s.id.moveBy σ = fi'.id := hid'
    rw [hid, hinfo'] at hrel
    generalize hinfo : (pass.gathered config _).info? s.id = info at hrel
    cases hrel with
    | some halike =>
      refine ⟨_, (pass.gathered_indexed config _).mem_addressTaken.mpr ?_, halike⟩
      rw [(pass.gathered_indexed config _).funcs.key_eq s.id _ hinfo]
      exact hinfo
  visible module sig := by
    rw [Bool.eq_iff_iff]
    simp only [Context.visibleIn, Context.isVisible, List.contains_iff_mem, gathered_visible]
    exact h.exists_iff fun i hi => h.marks_iff hi _
  references module global := by
    rw [Bool.eq_iff_iff]
    simp only [gathered_references]
    exact h.exists_iff fun i hi => h.refers_iff hi module global

end Pass
end CallTargets
