import CallTargets.Proofs.Discovery.Reports
import CallTargets.Proofs.Matching.Failure
import CallTargets.Proofs.Matching.Registered

/-!
# Changes that the steps of a pass report

The targets of a call are the sorted list of functions that were found in the order of discovery.
This order is only ever extended at its end, so two such lists that hold the same targets are equal,
and comparing lists tells whether the set of targets changed. The main statement is that both steps
of a pass report a change exactly if there is one, in every state that steps can lead to.
-/
namespace CallTargets

open IR

/-- A part of a list without repeats is determined by its elements. -/
theorem filter_mem_of_sublist {α : Type} [DecidableEq α] {as all : List α} (h : as.Sublist all)
    (hall : all.Nodup) : all.filter (· ∈ as) = as := by
  induction h with
  | slnil => rfl
  | @cons as all a hsub ih =>
    obtain ⟨ha, hall⟩ := List.nodup_cons.mp hall
    have hnot : a ∉ as := fun hmem => ha (hsub.subset hmem)
    rw [List.filter_cons_of_neg (by simpa using hnot), ih hall]
  | @cons_cons as all a hsub ih =>
    obtain ⟨ha, hall⟩ := List.nodup_cons.mp hall
    rw [List.filter_cons_of_pos (by simp)]
    congr 1
    rw [← ih hall]
    apply List.filter_congr
    intro b hb
    have hne : b ≠ a := by
      rintro rfl
      exact ha hb
    simp [hne, hb]

theorem Context.Steps.taken_extended {c c' : Context} (h : c.Steps c') : c.taken <+: c'.taken := by
  induction h with
  | refl => exact List.prefix_rfl
  | tail _ hstep ih =>
    cases hstep with
    | taken fi _ => exact ih.trans (List.prefix_append _ _)
    | _ => exact ih

namespace Pass

/-! ### Targets in the order of discovery -/

def targetOf (pass : Pass) (id : FuncId) : Target := (pass.blank id).target

/-- The records are in order, and the targets of every call are those of some functions in the
order of discovery. -/
structure Ordered (pass : Pass) (c : Context) : Prop extends Registered pass c where
  ordered : ∀ id cs, c.site? id = some cs →
    ∃ ids : List FuncId, ids.Sublist c.taken ∧ cs.callees = Target.normalize (ids.map pass.targetOf)

variable {pass : Pass} {c : Context}

theorem start_ordered (pass : Pass) (config : Config) :
    pass.Ordered (.start config pass.program.symbols) where
  toRegistered := pass.start_registered config
  ordered id cs h := by cases h

/-- New calls have no targets, and old functions keep their places. -/
theorem Ordered.recordFacts (h : pass.Ordered c) (module : Nat) {facts : List Fact}
    (hfacts : Unmatched pass.program facts) :
    pass.Ordered (pass.recordFacts module c facts).2 where
  toRegistered := h.toRegistered.recordFacts module hfacts
  ordered id cs hcs := by
    have htaken := (pass.recordFacts_steps module c facts).taken_extended
    rw [site?_recordFacts, Option.or_eq_some_iff] at hcs
    rcases hcs with hold | ⟨-, hnew⟩
    · obtain ⟨ids, hids, hcallees⟩ := h.ordered id cs hold
      exact ⟨ids, hids.trans htaken.sublist, hcallees⟩
    · obtain ⟨hempty, -⟩ := hfacts cs (List.mem_of_find?_eq_some hnew)
      exact ⟨[], List.nil_sublist _, hempty⟩

theorem Ordered.registerVisible (h : pass.Ordered c) (path : ByteString) (m : Module) :
    pass.Ordered (pass.registerVisible path m c).2 where
  toRegistered := h.toRegistered.registerVisible path m
  ordered id cs hcs := by
    obtain ⟨visible, refs, hframe⟩ := pass.registerVisible_frame path m c
    rw [hframe] at hcs ⊢
    exact h.ordered id cs hcs

theorem Ordered.target_eq (h : pass.Ordered c) {fi : FuncInfo} (hfi : fi ∈ c.addressTaken) :
    fi.target = pass.targetOf fi.id :=
  (h.same fi.id fi (h.indexed.mem_addressTaken.mp hfi)).target_eq

/-- Matching finds functions in the order of discovery. -/
theorem Ordered.callees_matched (h : pass.Ordered c) (cs : CallSite) :
    ∃ ids : List FuncId, ids.Sublist c.taken ∧
      (matched c cs).callees = Target.normalize (ids.map pass.targetOf) := by
  have hsub := candidates_sublist h.indexed cs
  refine ⟨(candidates c cs).2.map FuncInfo.id, ?_, ?_⟩
  · have horder : c.addressTaken.map FuncInfo.id = c.taken := h.indexed.funcs.map_key_records
    rw [← horder]
    exact hsub.map FuncInfo.id
  · change Target.normalize ((candidates c cs).2.map FuncInfo.target) = _
    rw [List.map_map]
    congr 1
    apply List.map_congr_left
    intro fi hfi
    exact h.target_eq (hsub.subset hfi)

theorem Ordered.resolveAll (h : pass.Ordered c) (path : ByteString) (changed : Bool) :
    pass.Ordered (Context.applyAll resolveCall (c.callSitesIn path) changed c).2 where
  toRegistered := h.toRegistered.resolveAll path changed
  ordered id cs hcs := by
    obtain ⟨sites, happly, -, hsites⟩ := resolveCallsIn h.indexed path changed
    rw [happly] at hcs ⊢
    obtain ⟨old, hold, rfl⟩ := Option.map_eq_some_iff.mp ((hsites id).symm.trans hcs)
    split
    · exact h.callees_matched old
    · exact h.ordered id old hold

theorem Ordered.id_targetOf (h : pass.Ordered c) {id : FuncId} (hid : id ∈ c.taken) :
    (pass.targetOf id).id = id := by
  obtain ⟨fi, hfi⟩ := (h.indexed.funcs.mem_order id).mp hid
  exact (h.same id fi hfi).id.symm.trans (h.indexed.funcs.key_eq id fi hfi)

theorem Ordered.mem_normalize (h : pass.Ordered c) {ids : List FuncId}
    (hids : ids.Sublist c.taken) {id : FuncId} (hid : id ∈ c.taken) :
    pass.targetOf id ∈ Target.normalize (ids.map pass.targetOf) ↔ id ∈ ids := by
  simp only [Target.normalize, mem_dropRepeats, mem_sortBy, List.mem_map]
  constructor
  · rintro ⟨id', hid', htarget⟩
    have heq := congrArg Target.id htarget
    rw [h.id_targetOf hid, h.id_targetOf (hids.subset hid')] at heq
    exact heq ▸ hid'
  · intro hmem
    exact ⟨id, hmem, rfl⟩

/-- Functions in the order of discovery are the same if they are the same targets. -/
theorem Ordered.eq_of_normalize (h : pass.Ordered c) {ids ids' : List FuncId}
    (hids : ids.Sublist c.taken) (hids' : ids'.Sublist c.taken)
    (hsame : ∀ t, t ∈ Target.normalize (ids.map pass.targetOf) ↔
      t ∈ Target.normalize (ids'.map pass.targetOf)) : ids = ids' := by
  rw [← filter_mem_of_sublist hids h.indexed.funcs.nodup,
    ← filter_mem_of_sublist hids' h.indexed.funcs.nodup]
  apply List.filter_congr
  intro id hid
  rw [decide_eq_decide, ← h.mem_normalize hids hid, ← h.mem_normalize hids' hid]
  exact hsame _

/-- A call is outdated exactly if matching changes the set of its targets. -/
theorem Ordered.outdated_iff (h : pass.Ordered c) {id : CallId} {cs : CallSite}
    (hcs : c.site? id = some cs) :
    outdated c cs = true ↔ {t | t ∈ (matched c cs).callees} ≠ {t | t ∈ cs.callees} := by
  rw [outdated, bne_iff_ne]
  refine not_congr ⟨fun heq => by rw [heq], fun hset => ?_⟩
  obtain ⟨ids, hids, hcallees⟩ := h.callees_matched cs
  obtain ⟨ids', hids', hcallees'⟩ := h.ordered id cs hcs
  rw [hcallees, hcallees'] at hset ⊢
  rw [h.eq_of_normalize hids hids' (Set.ext_iff.mp hset)]

theorem Ordered.recordStats (h : pass.Ordered c) : pass.Ordered c.recordStats where
  toRegistered := h.toRegistered.recordStats
  ordered := h.ordered

theorem ordered_kept (pass : Pass) : pass.Kept pass.Ordered where
  visible h := h.registerVisible
  facts h _ _ := h.recordFacts _
  calls h := h.resolveAll
  stats h := h.recordStats

/-! ### Reports of the steps -/

/-- The states that steps of a pass lead to, over any modules and in any order. -/
inductive Reachable (pass : Pass) (config : Config) : PassState → Prop where
  | start : Reachable pass config (pass.start config)
  | prepare {s : PassState} (before : Reachable pass config s) (i : Nat) :
      Reachable pass config (pass.prepare i s).2
  | analyze {s : PassState} (before : Reachable pass config s) (i : Nat) :
      Reachable pass config (pass.analyze i s).2
  | finish {s : PassState} (before : Reachable pass config s) :
      Reachable pass config (finish s).2

theorem Reachable.ordered {config : Config} {s : PassState} (h : pass.Reachable config s) :
    pass.Ordered s.context := by
  induction h with
  | start => exact pass.start_ordered config
  | prepare _ i ih => exact pass.ordered_kept.prepare ih i
  | analyze _ i ih => exact pass.ordered_kept.analyze ih i
  | finish _ ih => exact pass.ordered_kept.finish ih

end Pass

theorem Context.callees_of_site {c : Context} {cs : CallSite} (h : c.site? cs.id = some cs) :
    c.callees cs.id = cs.callees := by
  rw [callees, h]
  rfl

theorem Context.record_sites {c : Context} {sites : Assoc CallId CallSite} {f : CallSite → CallSite}
    (hsites : ∀ id, sites.get? id = (c.site? id).map f) (hf : ∀ cs, (f cs).bare = cs.bare) :
    ({ c with sites := sites } : Context).record = c.record := by
  ext e
  cases e with
  | call cs =>
    change (∃ known, sites.get? cs.id = some known ∧ known.bare = cs) ↔
      ∃ known, c.site? cs.id = some known ∧ known.bare = cs
    rw [hsites]
    simp [hf]
  | _ => rfl

namespace Pass

variable {pass : Pass} {c : Context}

/-- Matching the calls of a path leaves the record as it is, and reports whether it changed the set
of targets of one of them. -/
theorem Ordered.resolve_reports (h : pass.Ordered c) (path : ByteString) (changed : Bool) :
    let r := Context.applyAll resolveCall (c.callSitesIn path) changed c
    r.2.record = c.record ∧
      (r.1 = true ↔ changed = true ∨
        ∃ cs ∈ r.2.callSitesIn path, {t | t ∈ cs.callees} ≠ {t | t ∈ c.callees cs.id}) := by
  obtain ⟨sites, happly, hindexed, hsites⟩ := resolveCallsIn h.indexed path changed
  rw [happly]
  refine ⟨Context.record_sites hsites ?_, ?_⟩
  · intro cs
    split <;> rfl
  · rw [Bool.or_eq_true, List.any_eq_true]
    refine or_congr_right ?_
    constructor
    · rintro ⟨old, hold, hout⟩
      obtain ⟨hknown, hpath⟩ := h.indexed.mem_callSitesIn.mp hold
      refine ⟨matched c old, hindexed.mem_callSitesIn.mpr ⟨?_, hpath⟩, ?_⟩
      · change sites.get? old.id = _
        rw [hsites, hknown, Option.map_some, if_pos hpath]
      · change _ ≠ {t | t ∈ c.callees old.id}
        rw [Context.callees_of_site hknown]
        exact (h.outdated_iff hknown).mp hout
    · rintro ⟨cs, hcs, hne⟩
      obtain ⟨hnew, hpath⟩ := hindexed.mem_callSitesIn.mp hcs
      obtain ⟨old, hknown, hold⟩ := Option.map_eq_some_iff.mp ((hsites cs.id).symm.trans hnew)
      have hmodule : old.module = path := by
        by_contra hother
        rw [if_neg hother] at hold
        exact hother (hold ▸ hpath)
      rw [if_pos hmodule] at hold
      subst hold
      replace hknown : c.site? old.id = some old := hknown
      refine ⟨old, h.indexed.mem_callSitesIn.mpr ⟨hknown, hmodule⟩, ?_⟩
      apply (h.outdated_iff hknown).mpr
      rw [← Context.callees_of_site hknown]
      exact hne

/-- Matching a module reports whether the record grew or the targets of one of its calls changed. -/
theorem Ordered.analyze_reports {i : Nat} {s : PassState} (h : pass.Ordered s.context)
    (hsigned : pass.Signed i) :
    ∃ changed next, pass.analyze i s = (.ok changed, next) ∧
      s.context.record ⊆ next.context.record ∧
      (changed = true ↔ next.context.record ≠ s.context.record ∨
        ∃ cs ∈ next.context.callSitesIn (pass.program.path i),
          {t | t ∈ cs.callees} ≠ {t | t ∈ s.context.callees cs.id}) := by
  obtain ⟨path, m, hfile⟩ | hnot := pass.holds_or_empty i
  · have hpath : pass.program.path i = path := by simp [Program.path, hfile]
    have hordered := pass.ordered_kept.discover h hpath m
    obtain ⟨facts, layouts, caches, discovered, endless, -, hdiscover⟩ :=
      discover_of_signed hfile hsigned s
    rw [hdiscover] at hordered
    have hfound := pass.recordFacts_reports i s.context facts
    have hquiet : (pass.recordFacts i s.context facts).1 = false →
        (pass.recordFacts i s.context facts).2 = s.context := by
      rw [recordFacts_eq]
      exact fun hno => (applyAll_quiet (pass.recordFact_quiet i) hno).2
    generalize pass.recordFacts i s.context facts = found at hdiscover hordered hfound hquiet
    change pass.Ordered found.2 at hordered
    obtain ⟨hrecord, hflag⟩ := hordered.resolve_reports path found.1
    have hanalyze : pass.analyze i s =
        let r := Context.applyAll resolveCall (found.2.callSitesIn path) found.1 found.2
        (.ok r.1, ⟨r.2, layouts, caches, discovered, s.finished, endless⟩) := by
      simp only [analyze, hfile, hdiscover, ← Context.foldl_eq_applyAll]
    refine ⟨_, _, hanalyze, ?_, ?_⟩
    · exact hrecord ▸ hfound.grows
    · rw [hflag, hrecord, hpath, ← hfound.changed_iff]
      -- A scan without news leaves the state as it was, so targets are compared with old ones.
      cases hnew : found.1 with
      | true => simp
      | false => rw [hquiet hnew]
  · refine ⟨false, s, analyze_of_empty hnot s, subset_rfl, ?_⟩
    have hsame : ∀ cs ∈ s.context.callSitesIn (pass.program.path i),
        s.context.callees cs.id = cs.callees :=
      fun cs hcs => Context.callees_of_site (h.indexed.mem_callSitesIn.mp hcs).1
    simpa using fun cs hcs => by rw [hsame cs hcs]

end Pass

/-- In every state that steps lead to, and for every module whose indirect calls have signatures,
preparing the module adds to the record, reports whether it did, and does nothing when it is done
again; and matching its calls reports whether the record or the set of targets of one of them
changed. -/
theorem change_reports_exact (pass : Pass) (config : Config) {s : PassState}
    (hs : pass.Reachable config s) {i : Nat} {file : ModuleFile}
    (hfile : pass.program[i]? = some file) (hsigned : ∀ c ∈ file.calls i, ¬ c.Unsigned) :
    s.context.record ⊆ (pass.prepare i s).2.context.record ∧
    ((pass.prepare i s).1 = true ↔ (pass.prepare i s).2.context.record ≠ s.context.record) ∧
    pass.prepare i (pass.prepare i s).2 = (false, (pass.prepare i s).2) ∧
    ∃ changed next, pass.analyze i s = (.ok changed, next) ∧
      s.context.record ⊆ next.context.record ∧
      (changed = true ↔ next.context.record ≠ s.context.record ∨
        ∃ cs ∈ next.context.callSitesIn file.path,
          {t | t ∈ cs.callees} ≠ {t | t ∈ s.context.callees cs.id}) := by
  have hmodule : pass.Signed i := by
    rw [Pass.signed_iff_find? hfile, List.find?_eq_none]
    simpa using hsigned
  have hpath : pass.program.path i = file.path := by simp [Program.path, hfile]
  obtain ⟨hreports, htwice⟩ := Pass.prepare_reports hmodule s
  rw [← hpath]
  exact ⟨hreports.grows, hreports.changed_iff, htwice, hs.ordered.analyze_reports hmodule⟩

namespace Table

def pass : Pass := .ofProgram program

/-- The module that calls through the table is prepared first, and then the one that owns it. -/
def first : PassState := (pass.prepare 0 (pass.start .standard)).2

def ready : PassState := (pass.prepare 1 first).2

end Table

theorem change_reports_exact_table :
    (∀ c ∈ (⟨"user", some Table.user⟩ : ModuleFile).calls 0, ¬ c.Unsigned) ∧
      (Table.pass.prepare 0 (Table.pass.start .standard)).1 = true ∧
      Table.first.context.record ≠ (Table.pass.start .standard).context.record ∧
      Table.pass.prepare 0 Table.first = (false, Table.first) ∧
      ∃ next, Table.pass.analyze 0 Table.ready = (.ok true, next) ∧
        (next.context.record ≠ Table.ready.context.record ∨
          ∃ cs ∈ next.context.callSitesIn "user",
            {t | t ∈ cs.callees} ≠ {t | t ∈ Table.ready.context.callees cs.id}) := by
  have hfile : Table.pass.program[0]? = some ⟨"user", some Table.user⟩ := rfl
  have hsigned : ∀ c ∈ (⟨"user", some Table.user⟩ : ModuleFile).calls 0, ¬ c.Unsigned := by
    decide +kernel
  have hfirst : (Table.pass.prepare 0 (Table.pass.start .standard)).1 = true := by
    decide +kernel
  have hready : (Table.pass.analyze 0 Table.ready).1 = .ok true := by
    decide +kernel
  have hreachable : Table.pass.Reachable .standard Table.ready :=
    (Pass.Reachable.start.prepare 0).prepare 1
  obtain ⟨-, hchanged, htwice, -⟩ :=
    change_reports_exact Table.pass .standard .start hfile hsigned
  obtain ⟨-, -, -, changed, next, hanalyze, -, hreport⟩ :=
    change_reports_exact Table.pass .standard hreachable hfile hsigned
  rw [hanalyze] at hready
  obtain rfl : changed = true := Except.ok.inj hready
  exact ⟨hsigned, hfirst, hchanged.mp hfirst, htwice, next, hanalyze, hreport.mp rfl⟩

end CallTargets
