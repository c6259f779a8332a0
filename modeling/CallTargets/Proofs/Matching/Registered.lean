import CallTargets.Proofs.Fixpoint.Invariants
import CallTargets.Proofs.Matching.Order

/-!
# What holds of the records throughout a run

However a run ends, also at a failure or when it is cancelled, every record of a function belongs to
a function that stands for others, every call is on record for the module of its caller, and every
target of a call is on record and listed once. Each fact that a scan finds, also a scan that fails,
keeps this, and so does matching a call.
-/
namespace CallTargets

open IR

/-! ### Facts of a scan -/

/-- The caller of a call is a function of the module that the call is recorded for. -/
def CallSite.AtHome (p : Program) (cs : CallSite) : Prop :=
  ∀ f ∈ cs.caller, cs.module = p.path f.module

/-- Facts that record calls for the modules of their callers and without targets. -/
def Unmatched (p : Program) (facts : List Fact) : Prop :=
  ∀ cs ∈ facts.filterMap Fact.call?, cs.callees = [] ∧ cs.AtHome p

variable {p : Program}

theorem Quiet.unmatched {facts : List Fact} (h : Quiet facts) : Unmatched p facts := by
  intro cs hcs
  rw [h.no_call] at hcs
  cases hcs

theorem Unmatched.append {facts more : List Fact} (h : Unmatched p facts)
    (hmore : Unmatched p more) : Unmatched p (facts ++ more) := by
  intro cs hcs
  rw [List.filterMap_append, List.mem_append] at hcs
  exact hcs.elim (h cs) (hmore cs)

namespace Scanner

theorem stepFacts_unmatched {sc : Scanner} (hpath : p.path sc.index = sc.path) {s : Step}
    (hs : s ∈ sc.steps) (memory : Memory) : Unmatched p (sc.stepFacts s memory).1.facts := by
  have hfinds := sc.stepFacts_finds s memory
  generalize (sc.stepFacts s memory).1 = found at hfinds ⊢
  cases hfinds with
  | quiet h _ _ => exact h.unmatched
  | failure h _ => exact h.unmatched
  | call h _ _ _ =>
    have hmodule := (mem_steps_inst.mp hs).1
    refine h.unmatched.append ?_
    simp [Unmatched, Fact.call?, siteOf, CallSite.AtHome, hmodule, hpath]

/-- Also the facts of the step at which a scan fails record calls without targets. -/
theorem runSteps_unmatched {sc : Scanner} (hpath : p.path sc.index = sc.path) {steps : List Step}
    (hsteps : steps ⊆ sc.steps) {before : List (List Fact)}
    (hbefore : Unmatched p before.reverse.flatten) (memory : Memory) :
    Unmatched p (sc.runSteps steps before memory).1.facts ∧
      ∀ facts e, (sc.runSteps steps before memory).1.failure = some (facts, e) →
        Unmatched p facts := by
  induction steps generalizing before memory with
  | nil =>
    refine ⟨hbefore, ?_⟩
    rintro facts e h
    cases h
  | cons s rest ih =>
    obtain ⟨hs, hrest⟩ := List.cons_subset.mp hsteps
    have hstep := stepFacts_unmatched hpath hs memory
    rw [runSteps_cons]
    cases sc.unsigned? s with
    | some e =>
      refine ⟨hbefore, ?_⟩
      rintro facts e' h
      cases h
      exact hstep
    | none =>
      apply ih hrest
      rw [List.reverse_cons, List.flatten_append, List.flatten_singleton]
      exact hbefore.append hstep

theorem scan_unmatched (sc : Scanner) (hpath : p.path sc.index = sc.path) (memory : Memory) :
    Unmatched p (sc.scan memory).1.facts ∧
      ∀ facts e, (sc.scan memory).1.failure = some (facts, e) → Unmatched p facts := by
  refine runSteps_unmatched hpath (List.Subset.refl _) ?_ memory
  simpa using (Quiet.flatMap fun g (_ : g ∈ sc.module.globals) => sc.globalFacts_quiet g).unmatched

end Scanner

/-! ### Records of one function -/

theorem Context.Steps.info? {c c' : Context} (h : c.Steps c') {id : FuncId} {fi : FuncInfo}
    (hfi : c.info? id = some fi) : ∃ fi', c'.info? id = some fi' ∧ fi.SameFunc fi' := by
  induction h with
  | refl => exact ⟨fi, hfi, .refl fi⟩
  | tail _ hstep ih =>
    obtain ⟨old, hold, hsame⟩ := ih
    have hget := hold
    rw [Context.info?] at hget
    cases hstep with
    | taken new hnew =>
      have hne : new.id ≠ id := by
        rintro rfl
        rw [hnew] at hget
        cases hget
      refine ⟨old, ?_, hsame⟩
      rw [Context.info?, Assoc.get?_put_of_ne hne]
      exact hget
    | info f known next hknown hnext =>
      by_cases hid : f = id
      · subst hid
        rw [hknown] at hget
        cases hget
        exact ⟨next, Assoc.get?_put_self _ _ _, hsame.trans hnext⟩
      · refine ⟨old, ?_, hsame⟩
        rw [Context.info?, Assoc.get?_put_of_ne hid]
        exact hget
    | _ => exact ⟨old, hold, hsame⟩

namespace Pass

/-! ### The invariant -/

/-- Functions are on record for themselves, or for those that they stand for, and calls for the
modules of their callers; targets are on record and are listed once. -/
structure Registered (pass : Pass) (c : Context) : Prop where
  linked : pass.Linked c
  indexed : c.Indexed
  same : ∀ id fi, c.info? id = some fi → (pass.blank id).SameFunc fi
  home : ∀ id fi, c.info? id = some fi →
    ∃ module func, (pass.home? module func).map Symbol.id = some id
  caller : ∀ id cs, c.site? id = some cs → cs.AtHome pass.program
  nodup : ∀ id cs, c.site? id = some cs → cs.callees.Nodup
  target : ∀ id cs, c.site? id = some cs → ∀ t ∈ cs.callees,
    ∃ fi, c.info? t.id = some fi ∧ fi.target = t

variable {pass : Pass} {c : Context}

theorem start_registered (pass : Pass) (config : Config) :
    pass.Registered (.start config pass.program.symbols) where
  linked := pass.start_linked config
  indexed := Context.start_indexed config _
  same id fi h := by cases h
  home id fi h := by cases h
  caller id cs h := by cases h
  nodup id cs h := by cases h
  target id cs h := by cases h

theorem Registered.target_steps (h : pass.Registered c) {c' : Context} (hs : c.Steps c')
    {id : CallId} {cs : CallSite} (hcs : c.site? id = some cs) {t : Target} (ht : t ∈ cs.callees) :
    ∃ fi, c'.info? t.id = some fi ∧ fi.target = t := by
  obtain ⟨fi, hfi, rfl⟩ := h.target id cs hcs t ht
  obtain ⟨fi', hfi', hsame⟩ := hs.info? hfi
  exact ⟨fi', hfi', hsame.target_eq⟩

theorem Registered.recordFact (h : pass.Registered c) (module : Nat) {fact : Fact}
    (hfact : ∀ cs ∈ fact.call?, cs.callees = [] ∧ cs.AtHome pass.program) :
    pass.Registered (pass.recordFact module c fact).2 := by
  have hsteps := pass.recordFact_steps module c fact
  have hinfo : ∀ id fi, (pass.recordFact module c fact).2.info? id = some fi →
      (∃ old, c.info? id = some old ∧ old.SameFunc fi) ∨
        (pass.blank id).SameFunc fi ∧ pass.subject? module fact = some id := by
    intro id fi hfi
    rw [info?_recordFact h.linked] at hfi
    split at hfi
    · next hsubject =>
      cases hold : c.info? id with
      | some old =>
        rw [hold] at hfi
        cases hfi
        exact .inl ⟨old, rfl, old.learn_sameFunc fact⟩
      | none =>
        rw [hold] at hfi
        cases fact with
        | taken f how =>
          cases hfi
          exact .inr ⟨(pass.blank id).learn_sameFunc _, hsubject⟩
        | _ => cases hfi
    · exact .inl ⟨fi, hfi, .refl fi⟩
  have hsite : ∀ id cs, (pass.recordFact module c fact).2.site? id = some cs →
      c.site? id = some cs ∨ cs.callees = [] ∧ cs.AtHome pass.program := by
    intro id cs hcs
    rw [site?_recordFact, Option.or_eq_some_iff] at hcs
    rcases hcs with hcs | ⟨-, hcs⟩
    · exact .inl hcs
    · exact .inr (hfact cs (Option.filter_eq_some_iff.mp hcs).1)
  refine ⟨h.linked.steps hsteps, hsteps.indexed h.indexed, ?_, ?_, ?_, ?_, ?_⟩
  · intro id fi hfi
    rcases hinfo id fi hfi with ⟨old, hold, hsame⟩ | ⟨hsame, -⟩
    · exact (h.same id old hold).trans hsame
    · exact hsame
  · intro id fi hfi
    rcases hinfo id fi hfi with ⟨old, hold, -⟩ | ⟨-, hsubject⟩
    · exact h.home id old hold
    · obtain ⟨f, -, hf⟩ := Option.bind_eq_some_iff.mp hsubject
      exact ⟨module, f, hf⟩
  · intro id cs hcs
    rcases hsite id cs hcs with hold | ⟨-, hhome⟩
    · exact h.caller id cs hold
    · exact hhome
  · intro id cs hcs
    rcases hsite id cs hcs with hold | ⟨hempty, -⟩
    · exact h.nodup id cs hold
    · rw [hempty]
      exact List.nodup_nil
  · intro id cs hcs t ht
    rcases hsite id cs hcs with hold | ⟨hempty, -⟩
    · exact h.target_steps hsteps hold ht
    · rw [hempty] at ht
      cases ht

theorem Registered.recordFacts (h : pass.Registered c) (module : Nat) {facts : List Fact}
    (hfacts : Unmatched pass.program facts) :
    pass.Registered (pass.recordFacts module c facts).2 := by
  rw [recordFacts_eq]
  refine Context.applyAll_keeps (P := pass.Registered) ?_ _ h
  intro fact hfact c hc
  exact hc.recordFact module fun cs hcs => hfacts cs (List.mem_filterMap.mpr ⟨fact, hfact, hcs⟩)

theorem Registered.registerVisible (h : pass.Registered c) (path : ByteString) (m : Module) :
    pass.Registered (pass.registerVisible path m c).2 := by
  have hindexed := (pass.registerVisible_steps path m c).indexed h.indexed
  obtain ⟨visible, refs, hframe⟩ := pass.registerVisible_frame path m c
  rw [hframe] at hindexed ⊢
  exact ⟨h.linked, hindexed, h.same, h.home, h.caller, h.nodup, h.target⟩

theorem Registered.resolveAll (h : pass.Registered c) (path : ByteString) (changed : Bool) :
    pass.Registered (Context.applyAll resolveCall (c.callSitesIn path) changed c).2 := by
  obtain ⟨sites, happly, hindexed, hsites⟩ := resolveCallsIn h.indexed path changed
  rw [happly]
  have hsite : ∀ id cs, sites.get? id = some cs →
      c.site? id = some cs ∨ ∃ old, c.site? id = some old ∧ cs = matched c old := by
    intro id cs hcs
    rw [hsites id] at hcs
    obtain ⟨old, hold, rfl⟩ := Option.map_eq_some_iff.mp hcs
    split
    · exact .inr ⟨old, hold, rfl⟩
    · exact .inl hold
  refine ⟨h.linked, hindexed, h.same, h.home, ?_, ?_, ?_⟩
  · intro id cs hcs
    rcases hsite id cs hcs with hold | ⟨old, hold, rfl⟩
    · exact h.caller id cs hold
    · exact h.caller id old hold
  · intro id cs hcs
    rcases hsite id cs hcs with hold | ⟨old, -, rfl⟩
    · exact h.nodup id cs hold
    · exact matched_callees_nodup h.indexed old
  · intro id cs hcs t ht
    rcases hsite id cs hcs with hold | ⟨old, -, rfl⟩
    · exact h.target id cs hold t ht
    · obtain ⟨fi, hfi, rfl⟩ := (mem_callees_matched c old t).mp ht
      exact ⟨fi, h.indexed.mem_addressTaken.mp ((candidates_sublist h.indexed old).subset hfi), rfl⟩

theorem Registered.recordStats (h : pass.Registered c) : pass.Registered c.recordStats :=
  ⟨h.linked, (Context.Step.stats _ _).indexed h.indexed, h.same, h.home, h.caller, h.nodup,
    h.target⟩

/-! ### Steps and runs -/

/-- What holds of the records whatever the parts of a step do to them. -/
structure Kept (pass : Pass) (P : Context → Prop) : Prop where
  visible : ∀ {c}, P c → ∀ path m, P (pass.registerVisible path m c).2
  facts : ∀ {c}, P c → ∀ module {facts}, Unmatched pass.program facts →
    P (pass.recordFacts module c facts).2
  calls : ∀ {c}, P c → ∀ path changed,
    P (Context.applyAll resolveCall (c.callSitesIn path) changed c).2
  stats : ∀ {c}, P c → P c.recordStats

namespace Kept

variable {P : Context → Prop} {s : PassState}

theorem discover (hP : pass.Kept P) (h : P s.context) {module : Nat} {path : ByteString}
    (hpath : pass.program.path module = path) (m : Module) :
    P (pass.discover module path m s).2.2.context := by
  unfold Pass.discover
  split
  · exact h
  · dsimp only
    generalize (s.layouts.get? path).getD (.ofText m.dataLayout) = data
    generalize (⟨(s.caches.get? module).getD [], false⟩ : Memory) = memory
    have hscan := Scanner.scan_unmatched (p := pass.program)
      ⟨module, path, m, ⟨pass.names, m.typeDefs⟩, ⟨data, m.typeDefs⟩⟩ hpath memory
    generalize Scanner.scan _ memory = r at hscan ⊢
    obtain ⟨⟨facts, failure⟩, memory'⟩ := r
    obtain ⟨hfacts, hfailure⟩ := hscan
    have hfound := hP.facts h module hfacts
    cases failure with
    | none => exact hfound
    | some f => exact hP.facts hfound module (hfailure f.1 f.2 rfl)

theorem prepare (hP : pass.Kept P) (h : P s.context) (module : Nat) :
    P (pass.prepare module s).2.context := by
  unfold Pass.prepare
  split
  · next path m hfile =>
    have hseen : P ({ s with context := (pass.registerVisible path m s.context).2 } :
      PassState).context := hP.visible h path m
    exact hP.discover hseen (by simp [Program.path, hfile]) m
  · exact h

theorem analyze (hP : pass.Kept P) (h : P s.context) (module : Nat) :
    P (pass.analyze module s).2.context := by
  unfold Pass.analyze
  split
  · next path m hfile =>
    have hd := hP.discover h (by simp [Program.path, hfile] : pass.program.path module = path) m
    generalize pass.discover module path m s = r at hd ⊢
    obtain ⟨found, failure, t⟩ := r
    cases failure with
    | some e => exact hd
    | none =>
      have hmatch := hP.calls hd path found
      rw [← Context.foldl_eq_applyAll] at hmatch
      exact hmatch
  · exact h

theorem finish (hP : pass.Kept P) (h : P s.context) : P (Pass.finish s).2.context := by
  unfold Pass.finish
  split
  · exact h
  · exact hP.stats h

/-- What is kept holds at the end of every run, whatever its modules, its cap and its end. -/
theorem run (hP : pass.Kept P) {d : Driver PassState Nat NoSignature}
    (hd : d.pass = pass.modulePass) (ms : List Nat) {s : PassState} (h : P s.context) :
    P (d.run ms s).state.context := by
  have hkeeps : d.Keeps ms fun s => P s.context := by
    constructor <;> rw [hd]
    · intro i _ s h
      exact hP.prepare h i
    · intro i _ s h
      exact hP.analyze h i
    · intro i _ s h
      exact hP.finish h
  exact hkeeps.run h

end Kept

theorem registered_kept (pass : Pass) : pass.Kept pass.Registered where
  visible h := h.registerVisible
  facts h _ _ := h.recordFacts _
  calls h := h.resolveAll
  stats h := h.recordStats

/-- The records are in order at the end of every run, whatever its modules, its cap and its end. -/
theorem run_registered {d : Driver PassState Nat NoSignature} (hd : d.pass = pass.modulePass)
    (ms : List Nat) (config : Config) :
    pass.Registered (d.run ms (pass.start config)).state.context :=
  pass.registered_kept.run hd ms (pass.start_registered config)

end Pass
end CallTargets
