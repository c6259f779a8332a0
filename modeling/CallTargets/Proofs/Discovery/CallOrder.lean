import CallTargets.Proofs.Discovery.Gathering
import CallTargets.Proofs.Discovery.Operands

/-!
# Calls in text order

The calls of a program are listed module by module, and inside a module by function, block and
instruction. A call is indirect if its callee, a limited number of casts apart, is neither a
function nor inline assembly; it lacks a signature if moreover neither the type of the callee nor
that of the result tells one. The main statements are that a scan records exactly the indirect calls
of its module in this order, that it fails at the first of them without a signature, and that the
modules together record all of them in the order of the visits.
-/
namespace CallTargets

namespace IR

def Inst.call? (i : Inst) : Option Call :=
  match i.op with
  | .call c => some c
  | _ => none

/-- A value that a call can be of without being indirect: a function or inline assembly. -/
def Value.isCode : Value → Bool
  | .const (.func _) | .asm _ => true
  | _ => false

def TypeDefs.Callable (defs : TypeDefs) (t : Ty) : Prop :=
  (∃ r ps v, defs.expand t = .func r ps v) ∨
    ∃ space e r ps v, defs.expand t = .ptr space e ∧ defs.expand e = .func r ps v

namespace Frame

/-- A value stands behind a number of pointer casts. -/
inductive Behind (fr : Frame) : Nat → Value → Value → Prop
  | here (v : Value) : Behind fr 0 v v
  | cast {n : Nat} {v w u : Value} (step : fr.uncast? v = some w) (rest : Behind fr n w u) :
      Behind fr (n + 1) v u

theorem uncast?_of_isCode (fr : Frame) {v : Value} (h : v.isCode = true) : fr.uncast? v = none := by
  cases v with
  | const c => cases c <;> simp_all [Value.isCode, uncast?]
  | asm t => rfl
  | _ => simp [Value.isCode] at h

/-- What is no cast itself stands behind a limited number of casts exactly if it is left when so many
are removed. -/
theorem exists_behind_iff {fr : Frame} {limit : Nat} {v u : Value} (hu : fr.uncast? u = none) :
    (∃ n ≤ limit, fr.Behind n v u) ↔ fr.stripWithin limit v = u := by
  induction limit generalizing v with
  | zero =>
    rw [stripWithin_zero]
    constructor
    · rintro ⟨n, hn, h⟩
      obtain rfl := Nat.le_zero.mp hn
      cases h
      rfl
    · rintro rfl
      exact ⟨0, le_rfl, .here v⟩
  | succ limit ih =>
    rw [stripWithin_succ]
    cases hv : fr.uncast? v with
    | none =>
      constructor
      · rintro ⟨n, -, h⟩
        cases h with
        | here => rfl
        | cast step => simp [hv] at step
      · rintro rfl
        exact ⟨0, Nat.zero_le _, .here v⟩
    | some w =>
      rw [Option.map_some, Option.getD_some, ← ih]
      constructor
      · rintro ⟨n, hn, h⟩
        cases h with
        | here => simp [hu] at hv
        | cast step rest =>
          rw [hv] at step
          cases step
          exact ⟨_, Nat.le_of_succ_le_succ hn, rest⟩
      · rintro ⟨n, hn, h⟩
        exact ⟨n + 1, Nat.succ_le_succ hn, .cast hv h⟩

end Frame
end IR

open IR

theorem calledType?_eq_none_iff (defs : TypeDefs) (t : Ty) :
    calledType? defs t = none ↔ ¬ defs.Callable t := by
  unfold calledType? TypeDefs.Callable
  cases ht : defs.expand t with
  | ptr space e =>
    cases he : defs.expand e with
    | func r ps v =>
      simp only [he, reduceCtorEq, false_iff, not_not]
      exact .inr ⟨space, e, r, ps, v, rfl, he⟩
    | _ => simp [he]
  | _ => simp

/-! ### The calls of a program -/

/-- A call of a program: its position, the module and the function it stands in, and the
instruction. -/
structure PlacedCall where
  id : CallId
  path : ByteString
  module : Module
  func : Func
  inst : Inst
  call : Call

def ModuleFile.calls (file : ModuleFile) (module : Nat) : List PlacedCall :=
  match file.content with
  | some m => m.funcs.zipIdx.flatMap fun (f, n) => f.blocks.zipIdx.flatMap fun (b, k) =>
      b.insts.zipIdx.filterMap fun (i, j) =>
        i.call?.map fun c => ⟨⟨module, n, k, j⟩, file.path, m, f, i, c⟩
  | none => []

def Program.calls (p : Program) : List PlacedCall :=
  p.zipIdx.flatMap fun (file, i) => file.calls i

/-- What a scan records of a call: its position, the function and the module it stands in, and its
signature. -/
structure CallEntry where
  id : CallId
  caller : Option FuncId
  module : ByteString
  sig : Option Signature
deriving DecidableEq, Repr

def CallSite.entry (cs : CallSite) : CallEntry := ⟨cs.id, cs.caller, cs.module, some cs.sig⟩

namespace PlacedCall

def frame (c : PlacedCall) : Frame := ⟨c.module, some c.func⟩

/-- Neither a function nor inline assembly stands behind the callee, a limited number of casts
apart. -/
def Indirect (c : PlacedCall) : Prop :=
  ∀ v ∈ c.call.callee, ∀ w, ∀ n ≤ maxCasts, c.frame.Behind n v w → w.isCode = false

/-- An indirect call whose callee has neither a function type nor a pointer to one, and whose result
has no type. -/
structure Unsigned (c : PlacedCall) : Prop where
  indirect : c.Indirect
  callee : ∀ v ∈ c.call.callee, ¬ c.module.typeDefs.Callable (c.module.valueType c.func v)
  result : c.call.result = none

/-- The function type that a call invokes: that of the callee, or the one it points to, or else one
made from the types of the result and the arguments. -/
inductive Invokes (c : PlacedCall) : Ty → Prop
  | callee {v : Value} {r : Ty} {ps : List Ty} {variadic : Bool} (value : c.call.callee = some v)
      (type : c.module.typeDefs.expand (c.module.valueType c.func v) = .func r ps variadic) :
      Invokes c (c.module.valueType c.func v)
  | pointee {v : Value} {space : Nat} {e r : Ty} {ps : List Ty} {variadic : Bool}
      (value : c.call.callee = some v)
      (pointer : c.module.typeDefs.expand (c.module.valueType c.func v) = .ptr space e)
      (type : c.module.typeDefs.expand e = .func r ps variadic) : Invokes c e
  | rebuilt {r : Ty}
      (callee : ∀ v ∈ c.call.callee, ¬ c.module.typeDefs.Callable (c.module.valueType c.func v))
      (result : c.call.result = some r) :
      Invokes c (.func r (c.call.args.map (c.module.valueType c.func)) false)

/-- A record has the position of a call, the function and the module it stands in, and the signature
that it invokes. -/
structure RecordedAs (c : PlacedCall) (cs : CallSite) : Prop where
  id : cs.id = c.id
  caller : cs.caller = some ⟨c.id.module, c.id.func⟩
  module : cs.module = c.path
  sig : ∃ t, c.Invokes t ∧ cs.sig = .ofFuncType t

def entry (c : PlacedCall) : CallEntry where
  id := c.id
  caller := some ⟨c.id.module, c.id.func⟩
  module := c.path
  sig := (c.module.callType? c.func c.call).map .ofFuncType

def complaint (c : PlacedCall) : NoSignature := ⟨Location.ofInst? c.inst, c.path, c.func.name⟩

theorem isDirect_eq (fr : Frame) (callee : Option Value) :
    Scanner.isDirect fr callee = callee.any fun v => (fr.strip v).isCode := by
  cases callee with
  | none => rfl
  | some v =>
    simp only [Scanner.isDirect, Option.map_some, Option.any_some]
    cases fr.strip v with
    | const c => cases c <;> rfl
    | _ => rfl

theorem indirect_iff (c : PlacedCall) :
    c.Indirect ↔ Scanner.isDirect c.frame c.call.callee = false := by
  rw [isDirect_eq, Option.any_eq_false]
  refine forall₂_congr fun v _ => ⟨fun h => ?_, fun h w n hn hw => ?_⟩
  · by_contra hcode
    have hcode : (c.frame.strip v).isCode = true := by simpa using hcode
    obtain ⟨n, hn, hbehind⟩ :=
      (Frame.exists_behind_iff (c.frame.uncast?_of_isCode hcode)).mpr rfl
    simp [h _ n hn hbehind] at hcode
  · by_contra hcode
    have hcode : w.isCode = true := by simpa using hcode
    have hstrip : c.frame.strip v = w :=
      (Frame.exists_behind_iff (c.frame.uncast?_of_isCode hcode)).mp ⟨n, hn, hw⟩
    simp [hstrip, hcode] at h

instance (c : PlacedCall) : Decidable c.Indirect :=
  decidable_of_iff _ c.indirect_iff.symm

theorem calledType?_eq_none (c : PlacedCall) :
    (c.call.callee.map (c.module.valueType c.func)).bind (calledType? c.module.typeDefs) = none ↔
      ∀ v ∈ c.call.callee, ¬ c.module.typeDefs.Callable (c.module.valueType c.func v) := by
  cases c.call.callee <;> simp [calledType?_eq_none_iff]

/-- Only the types of the callee and of the result can tell a signature. -/
theorem callType?_eq_none_iff (c : PlacedCall) :
    c.module.callType? c.func c.call = none ↔
      (∀ v ∈ c.call.callee, ¬ c.module.typeDefs.Callable (c.module.valueType c.func v)) ∧
        c.call.result = none := by
  rw [← calledType?_eq_none, Module.callType?, invokedType?]
  cases (c.call.callee.map (c.module.valueType c.func)).bind (calledType? c.module.typeDefs) with
  | none => simp
  | some t => simp

theorem invokes_of_callType? {c : PlacedCall} {t : Ty}
    (h : c.module.callType? c.func c.call = some t) : c.Invokes t := by
  rw [Module.callType?, invokedType?] at h
  split at h
  · next t' hcalled =>
    cases h
    obtain ⟨type, htype, hcalled⟩ := Option.bind_eq_some_iff.mp hcalled
    obtain ⟨v, hv, rfl⟩ := Option.map_eq_some_iff.mp htype
    unfold calledType? at hcalled
    split at hcalled
    · next space e hptr =>
      split at hcalled
      · next r ps variadic hfunc =>
        cases hcalled
        exact .pointee hv hptr hfunc
      · cases hcalled
    · next r ps variadic hfunc =>
      cases hcalled
      exact .callee hv hfunc
    · cases hcalled
  · next hnone =>
    obtain ⟨r, hr, rfl⟩ := Option.map_eq_some_iff.mp h
    exact .rebuilt (c.calledType?_eq_none.mp hnone) hr

theorem recordedAs_of_entry {c : PlacedCall} {cs : CallSite} (h : c.entry = cs.entry) :
    c.RecordedAs cs := by
  simp only [entry, CallSite.entry, CallEntry.mk.injEq] at h
  obtain ⟨hid, hcaller, hmodule, hsig⟩ := h
  obtain ⟨t, ht, hsig⟩ := Option.map_eq_some_iff.mp hsig
  exact ⟨hid.symm, hcaller.symm, hmodule.symm, t, invokes_of_callType? ht, hsig.symm⟩

theorem unsigned_iff (c : PlacedCall) :
    c.Unsigned ↔ Scanner.isDirect c.frame c.call.callee = false ∧
      c.module.callType? c.func c.call = none := by
  rw [callType?_eq_none_iff, ← indirect_iff]
  exact ⟨fun h => ⟨h.indirect, h.callee, h.result⟩, fun h => ⟨h.1, h.2.1, h.2.2⟩⟩

instance (c : PlacedCall) : Decidable c.Unsigned :=
  decidable_of_iff _ c.unsigned_iff.symm

end PlacedCall

/-! ### Scans -/

namespace Scanner

def placed? (sc : Scanner) : Step → Option PlacedCall
  | .inst f id i => i.call?.map fun c => ⟨id, sc.path, sc.module, f, i, c⟩
  | .term _ _ => none

theorem steps_placed (sc : Scanner) :
    sc.steps.filterMap sc.placed? = (⟨sc.path, some sc.module⟩ : ModuleFile).calls sc.index := by
  simp only [steps, ModuleFile.calls, List.filterMap_flatMap]
  refine List.flatMap_congr fun x _ => List.flatMap_congr fun y _ => ?_
  have hlast : [Step.term x.1 y.1.term].filterMap sc.placed? = [] := rfl
  rw [blockSteps, List.filterMap_append, hlast, List.append_nil, List.filterMap_map]
  rfl

/-- A step fails exactly if it visits a call without a signature. -/
theorem unsigned?_eq (sc : Scanner) (s : Step) :
    sc.unsigned? s =
      ((sc.placed? s).filter fun c => decide c.Unsigned).map PlacedCall.complaint := by
  cases s with
  | term f t => rfl
  | inst f id i =>
    cases hop : i.op with
    | call c =>
      simp only [unsigned?, placed?, Inst.call?, hop, Option.map_some, Option.filter_some,
        PlacedCall.unsigned_iff, PlacedCall.frame]
      cases isDirect ⟨sc.module, some f⟩ c.callee with
      | true => simp
      | false => cases sc.module.callType? f c <;> simp [PlacedCall.complaint]
    | _ => simp [unsigned?, placed?, Inst.call?, hop]

theorem findSome?_unsigned? (sc : Scanner) (steps : List Step) :
    steps.findSome? sc.unsigned? =
      ((steps.filterMap sc.placed?).find? fun c => decide c.Unsigned).map PlacedCall.complaint := by
  induction steps with
  | nil => rfl
  | cons s steps ih =>
    rw [List.findSome?_cons, unsigned?_eq, ih]
    cases hs : sc.placed? s with
    | none => simp [hs]
    | some c =>
      rw [List.filterMap_cons_some hs, List.find?_cons]
      by_cases hc : c.Unsigned <;> simp [hc, Option.filter_some]

/-- A step that does not fail records the indirect call that it visits. -/
theorem stepFacts_entries (sc : Scanner) {s : Step} (hs : sc.unsigned? s = none)
    (memory : Memory) :
    ((sc.stepFacts s memory).1.facts.filterMap Fact.call?).map CallSite.entry =
      (((sc.placed? s).filter fun c => decide c.Indirect).map PlacedCall.entry).toList := by
  have hfinds := sc.stepFacts_finds s memory
  generalize (sc.stepFacts s memory).1 = found at hfinds ⊢
  cases hfinds with
  | quiet hquiet hcall _ =>
    rw [hquiet.no_call]
    cases s with
    | term f t => rfl
    | inst f id i =>
      cases hop : i.op with
      | call c =>
        have hdirect : isDirect ⟨sc.module, some f⟩ c.callee = true := by
          simpa [indirect?, hop] using hcall
        simp [placed?, Inst.call?, hop, PlacedCall.indirect_iff, PlacedCall.frame, hdirect]
      | _ => simp [placed?, Inst.call?, hop]
  | failure _ h =>
    rw [hs] at h
    cases h
  | @call f id i c t facts hquiet op indirect type =>
    rw [List.filterMap_append, hquiet.no_call]
    simp [Fact.call?, placed?, Inst.call?, op, Option.filter_some, PlacedCall.indirect_iff,
      PlacedCall.frame, indirect, PlacedCall.entry, CallSite.entry, siteOf, type]

theorem factsAlong_entries (sc : Scanner) {steps : List Step}
    (h : ∀ s ∈ steps, sc.unsigned? s = none) (memory : Memory) :
    ((sc.factsAlong steps memory).filterMap Fact.call?).map CallSite.entry =
      ((steps.filterMap sc.placed?).filter fun c => decide c.Indirect).map PlacedCall.entry := by
  induction steps generalizing memory with
  | nil => rfl
  | cons s rest ih =>
    rw [factsAlong, List.filterMap_append, List.map_append,
      sc.stepFacts_entries (h s List.mem_cons_self),
      ih (fun t ht => h t (List.mem_cons_of_mem s ht))]
    cases hs : sc.placed? s with
    | none => simp [hs]
    | some c =>
      rw [List.filterMap_cons_some hs]
      by_cases hc : c.Indirect <;> simp [hc, Option.filter_some]

/-- A scan that comes to its end records exactly the indirect calls of its module, in order. -/
theorem found_entries {sc : Scanner} (h : sc.Signed) (memory : Memory) :
    ((sc.found memory).filterMap Fact.call?).map CallSite.entry =
      (((⟨sc.path, some sc.module⟩ : ModuleFile).calls sc.index).filter
        fun c => decide c.Indirect).map PlacedCall.entry := by
  have hglobals :=
    (Quiet.flatMap fun g (_ : g ∈ sc.module.globals) => sc.globalFacts_quiet g).no_call
  rw [found, List.filterMap_append, hglobals, List.nil_append, sc.factsAlong_entries h,
    sc.steps_placed]

end Scanner

/-! ### Modules in the order of the visits -/

namespace Pass

variable {pass : Pass}

theorem callsOf_entries {i : Nat} {file : ModuleFile} (hfile : pass.program[i]? = some file)
    (hsigned : pass.Signed i) :
    (pass.callsOf i).map CallSite.entry =
      ((file.calls i).filter fun c => decide c.Indirect).map PlacedCall.entry := by
  obtain ⟨path, content⟩ := file
  cases content with
  | none => simp [callsOf, facts, hfile, ModuleFile.calls]
  | some m =>
    have hfound := Scanner.found_entries (hsigned path m hfile) .empty
    simp only [callsOf, facts, hfile]
    exact hfound

/-- Calls with positions of their own, none of them known, are appended in order. -/
theorem calls_recordFacts (pass : Pass) (module : Nat) {c : Context} {facts : List Fact}
    (hids : ((facts.filterMap Fact.call?).map CallSite.id).Nodup)
    (hnew : ∀ cs ∈ facts.filterMap Fact.call?, c.site? cs.id = none) :
    (pass.recordFacts module c facts).2.calls =
      c.calls ++ (facts.filterMap Fact.call?).map CallSite.id := by
  rw [recordFacts_eq]
  generalize false = changed
  induction facts generalizing c changed with
  | nil => simp [Context.applyAll]
  | cons fact facts ih =>
    rw [Context.applyAll]
    cases hcall : fact.call? with
    | none =>
      rw [List.filterMap_cons_none hcall] at hids hnew ⊢
      obtain ⟨taken, infos, bySig, hframe⟩ := pass.recordFact_frame module c hcall
      rw [hframe]
      exact ih (c := { c with taken := taken, infos := infos, bySig := bySig }) hids hnew _
    | some cs =>
      obtain rfl := Fact.eq_call hcall
      rw [List.filterMap_cons_some hcall] at hids hnew ⊢
      obtain ⟨hfirst, hrest⟩ := List.forall_mem_cons.mp hnew
      obtain ⟨hne, hids⟩ := List.nodup_cons.mp hids
      have hfirst : c.sites.get? cs.id = none := hfirst
      have hnew' : ∀ cs' ∈ facts.filterMap Fact.call?,
          (pass.recordFact module c (.call cs)).2.site? cs'.id = none := by
        intro cs' hcs'
        have hid : cs.id ≠ cs'.id := by
          intro heq
          exact hne (heq ▸ List.mem_map_of_mem hcs')
        rw [site?_recordFact, hrest cs' hcs']
        simp [Fact.call?, Option.filter, hid]
      have hcalls : (pass.recordFact module c (.call cs)).2.calls = c.calls ++ [cs.id] := by
        simp only [recordFact, Context.addCall, hfirst]
      rw [ih hids hnew', hcalls, List.map_cons, List.append_assoc, List.singleton_append]

theorem calls_absorb (pass : Pass) (module : Nat) {c : Context}
    (hids : ((pass.callsOf module).map CallSite.id).Nodup)
    (hnew : ∀ cs ∈ pass.callsOf module, c.site? cs.id = none) :
    (pass.absorb module c).2.calls = c.calls ++ (pass.callsOf module).map CallSite.id := by
  obtain ⟨path, m, hfile⟩ | hnot := pass.holds_or_empty module
  · obtain ⟨visible, refs, hframe⟩ := pass.registerVisible_frame path m c
    simp only [absorb, hfile, hframe]
    exact pass.calls_recordFacts module hids hnew
  · rw [absorb_of_empty hnot, callsOf, facts_of_empty hnot]
    simp

theorem calls_visit (pass : Pass) {ms : List Nat} {c : Context}
    (hids : ((ms.flatMap pass.callsOf).map CallSite.id).Nodup)
    (hnew : ∀ cs ∈ ms.flatMap pass.callsOf, c.site? cs.id = none) :
    (Driver.visit pass.absorb ms c).calls =
      c.calls ++ (ms.flatMap pass.callsOf).map CallSite.id := by
  induction ms generalizing c with
  | nil => simp
  | cons i ms ih =>
    rw [List.flatMap_cons] at hids hnew ⊢
    rw [List.map_append] at hids ⊢
    obtain ⟨hfirst, hrest, hapart⟩ := List.nodup_append.mp hids
    have hnew' : ∀ cs ∈ ms.flatMap pass.callsOf, (pass.absorb i c).2.site? cs.id = none := by
      intro cs hcs
      rw [site?_absorb, hnew cs (List.mem_append_right _ hcs), Option.none_or]
      refine List.find?_eq_none.mpr fun cs' hcs' => ?_
      simpa using hapart cs'.id (List.mem_map_of_mem hcs') cs.id (List.mem_map_of_mem hcs)
    rw [Driver.visit_cons, ih hrest hnew',
      pass.calls_absorb i hfirst fun cs hcs => hnew cs (List.mem_append_left _ hcs),
      List.append_assoc]

/-- The calls on record are those of the modules, in the order of the visits. -/
theorem gathered_callSites (config : Config) {ms : List Nat} (hms : ms.Nodup)
    (hsigned : ∀ i ∈ ms, pass.Signed i) :
    (pass.gathered config ms).callSites = ms.flatMap pass.callsOf := by
  have hids := calls_nodup hms hsigned
  have hcalls : (pass.gathered config ms).calls =
      (ms.flatMap pass.callsOf).map CallSite.id :=
    pass.calls_visit hids fun _ _ => rfl
  rw [Context.callSites, hcalls, List.filterMap_map]
  conv_rhs => rw [← List.filterMap_some (l := ms.flatMap pass.callsOf)]
  refine List.filterMap_congr fun cs hcs => ?_
  rw [Function.comp_apply, gathered_site?]
  exact (find?_eq_some_iff_mem hids).mpr ⟨hcs, rfl⟩

end Pass

/-! ### All modules -/

theorem Program.range_eq (p : Program) : List.range p.length = p.zipIdx.map Prod.snd := by
  rw [List.range_eq_range', List.zipIdx_map_snd]

/-- The records that the modules make in order are those of the indirect calls of the program. -/
theorem Program.entries_eq {p : Program}
    (hsigned : ∀ i ∈ List.range p.length, (Pass.ofProgram p).Signed i) :
    ((List.range p.length).flatMap (Pass.ofProgram p).callsOf).map CallSite.entry =
      (p.calls.filter fun c => decide c.Indirect).map PlacedCall.entry := by
  rw [calls, p.range_eq, List.flatMap_map, List.map_flatMap, List.filter_flatMap, List.map_flatMap]
  refine List.flatMap_congr fun x hx => ?_
  obtain ⟨file, i⟩ := x
  have hfile : p[i]? = some file := List.mk_mem_zipIdx_iff_getElem?.mp hx
  have hi : i < p.length := (List.getElem?_eq_some_iff.mp hfile).1
  exact Pass.callsOf_entries hfile (hsigned i (List.mem_range.mpr hi))

end CallTargets
