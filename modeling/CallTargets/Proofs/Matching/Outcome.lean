import CallTargets.Proofs.Discovery.Gathering
import CallTargets.Proofs.Matching.Phase

/-!
# The outcome of a run

A run over the modules of a program, in any order, succeeds exactly if every indirect call has a
function type. Then the state at the end is what was gathered, with every call brought to its final
record, and the report counts the changes of the first round and of the first phase.
-/
namespace CallTargets.Pass

open IR

/-- The state holds what was gathered, and every call has its final record. -/
structure Resolved (pass : Pass) (config : Config) (ms : List Nat) (c : Context) : Prop where
  frame : ∃ sites stats, c = { pass.gathered config ms with sites := sites, stats := stats }
  indexed : c.Indexed
  sites : ∀ id, c.site? id =
    ((pass.gathered config ms).site? id).map (matched (pass.gathered config ms))

theorem Resolved.withStats {pass : Pass} {config : Config} {ms : List Nat} {c : Context}
    (h : pass.Resolved config ms c) (stats : Stats) :
    pass.Resolved config ms { c with stats := stats } := by
  obtain ⟨sites, old, rfl⟩ := h.frame
  exact ⟨⟨sites, stats, rfl⟩, (Context.Step.stats _ stats).indexed h.indexed, h.sites⟩

/-! ### Finish -/

theorem finish_of_finished {s : PassState} (h : s.finished = true) : finish s = (false, s) := by
  rw [finish, if_pos h]

theorem visit_finish {ms : List Nat} (hms : ms ≠ []) {s : PassState} (h : s.finished = false) :
    Driver.visit (fun _ : Nat => finish) ms s =
      { s with finished := true, context := s.context.recordStats } := by
  cases ms with
  | nil => exact absurd rfl hms
  | cons i ms =>
    rw [Driver.visit_cons, finish, h]
    apply Driver.visit_of_stable
    intro j _
    exact finish_of_finished rfl

theorem changes_finish (ms : List Nat) (s : PassState) :
    Driver.changes (fun _ : Nat => finish) ms s = 0 := by
  induction ms generalizing s with
  | nil => rfl
  | cons i ms ih =>
    rw [Driver.changes, ih]
    unfold finish
    split <;> rfl

/-- The last stage counts the statistics, if there is a module at all, and is then over. -/
theorem visit_finish_stable (ms : List Nat) {s : PassState} (h : s.finished = false) :
    ∃ stats, (Driver.visit (fun _ : Nat => finish) ms s).context =
        { s.context with stats := stats } ∧
      (Driver.visit (fun _ : Nat => finish) ms s).endless = s.endless ∧
      (ms ≠ [] →
        stats = s.context.stats.record s.context.callSites s.context.addressTaken.length) ∧
      Driver.Stable (fun _ : Nat => finish) ms (Driver.visit (fun _ : Nat => finish) ms s) := by
  by_cases hms : ms = []
  · subst hms
    exact ⟨s.context.stats, rfl, rfl, fun hne => absurd rfl hne, fun i hi => by cases hi⟩
  · rw [visit_finish hms h]
    exact ⟨_, rfl, rfl, fun _ => rfl, fun i _ => finish_of_finished rfl⟩

/-! ### Matching what was gathered -/

theorem gathered_stats (pass : Pass) (config : Config) (ms : List Nat) :
    (pass.gathered config ms).stats = .zero := by
  refine Driver.visit_keeps (σ := Context) (P := fun c => c.stats = .zero) ?_ rfl
  intro i _ c hc
  rw [← hc]
  obtain ⟨path, m, hfile⟩ | hnot := pass.holds_or_empty i
  · obtain ⟨visible, refs, hframe⟩ := pass.registerVisible_frame path m c
    simp only [absorb, hfile, hframe, recordFacts_eq]
    refine Context.applyAll_keeps (P := fun c' => c'.stats = c.stats) ?_ _ rfl
    intro fact _ c' hc'
    rw [← hc']
    cases hcall : fact.call? with
    | none =>
      obtain ⟨taken, infos, bySig, hframe⟩ := pass.recordFact_frame i c' hcall
      rw [hframe]
    | some cs =>
      obtain rfl := Fact.eq_call hcall
      simp only [recordFact]
      unfold Context.addCall
      split <;> rfl
  · rw [absorb_of_empty hnot]

/-- A phase brings all calls that were gathered to their final records. -/
theorem visit_matchModule_gathered (pass : Pass) (config : Config) (ms : List Nat) :
    ∃ sites, Driver.visit pass.matchModule ms (pass.gathered config ms) =
        { pass.gathered config ms with sites := sites } ∧
      Context.Indexed { pass.gathered config ms with sites := sites } ∧
      ∀ id, sites.get? id =
        ((pass.gathered config ms).site? id).map (matched (pass.gathered config ms)) := by
  obtain ⟨sites, hvisit, hindexed, hsites⟩ :=
    pass.visit_matchModule ms (pass.gathered_indexed config ms)
  refine ⟨sites, hvisit, hindexed, ?_⟩
  intro id
  rw [hsites id]
  apply Option.map_congr
  intro cs hcs
  rw [if_pos (pass.gathered_placed config ms hcs)]

def phaseCounts (pass : Pass) (config : Config) (cap : Int) (ms : List Nat) : List Nat :=
  Driver.phaseChanges (pass.capped cap).cap
    (Driver.changes pass.matchModule ms (pass.gathered config ms))

def expectedReport (pass : Pass) (config : Config) (cap : Int) (ms : List Nat) : RunReport where
  initRounds := Driver.roundsFor
    (Driver.changes pass.absorb ms (.start config pass.program.symbols))
  phases := (pass.phaseCounts config cap ms).length
  changedPerPhase := pass.phaseCounts config cap ms
  finalRounds := 1

/-! ### Runs -/

theorem run_of_signed {pass : Pass} (hpaths : pass.DistinctPaths) {ms : List Nat} (hms : ms.Nodup)
    (hsigned : ∀ i ∈ ms, pass.Signed i) (config : Config) (cap : Int) :
    let out := (pass.capped cap).run ms (pass.start config)
    out.error = none ∧ pass.Resolved config ms out.state.context ∧
      out.report = pass.expectedReport config cap ms ∧
      out.state.endless = ms.any pass.stalls ∧
      (ms ≠ [] → out.state.context.stats =
        Stats.zero.record out.state.context.callSites out.state.context.addressTaken.length) := by
  obtain ⟨hcontext, hfinished, hendless, hchanges, -, -⟩ := visit_prepare hpaths hms hsigned
    (s := pass.start config) fun i _ path m _ => pass.start_fresh config i path
  have hknown := start_known hpaths hms hsigned config
  generalize hprepared : Driver.visit pass.prepare ms (pass.start config) = s at *
  have hgathered : s.context = pass.gathered config ms := hcontext
  obtain ⟨hpasses, hvisit, hcounts⟩ := visit_analyze cap (List.Subset.refl ms) hknown
    (hgathered ▸ pass.gathered_indexed config ms)
  obtain ⟨sites, hmatch, hindexed, hsites⟩ := pass.visit_matchModule_gathered config ms
  let analyzed : PassState := { s with context := { pass.gathered config ms with sites := sites } }
  have hanalyzed : Driver.visit (pass.capped cap).analyzeStep ms s = analyzed := by
    rw [hvisit, hgathered, hmatch]
  have hstable : ∀ i ∈ ms, pass.analyze i analyzed = (.ok false, analyzed) := by
    intro i hi
    have hknown' : pass.Known ms analyzed := by
      have := hknown.withSites sites
      rw [hgathered] at this
      exact this
    refine analyze_of_matched hknown' hindexed ?_ hi
    intro id cs hcs
    obtain ⟨cs', -, rfl⟩ := Option.map_eq_some_iff.mp ((hsites id).symm.trans hcs)
    rfl
  obtain ⟨stats, hend, hmark, hstats, hdone⟩ :=
    visit_finish_stable ms (s := analyzed) hfinished
  have hsettles : (pass.capped cap).Settles ms (pass.start config) s analyzed
      (Driver.visit (fun _ : Nat => finish) ms analyzed) :=
    ⟨hprepared, hknown.prepare_stable, hpasses, hanalyzed, hstable, rfl, hdone⟩
  obtain ⟨herror, hstate, hreport⟩ := Driver.run_of_settles (fun _ => rfl) hsettles
  dsimp only
  rw [hstate, hend]
  have hresolved : pass.Resolved config ms analyzed.context :=
    ⟨⟨sites, _, rfl⟩, hindexed, hsites⟩
  refine ⟨herror, hresolved.withStats stats, ?_, hmark.trans hendless, ?_⟩
  · rw [hreport]
    simp only [capped, modulePass, changes_finish] at hcounts ⊢
    rw [hchanges, hcounts, hgathered]
    rfl
  · intro hne
    rw [← pass.gathered_stats config ms]
    exact hstats hne

theorem run_of_unsigned {pass : Pass} (hpaths : pass.DistinctPaths) {ms : List Nat} {i : Nat}
    (hi : i ∈ ms) (hunsigned : ¬ pass.Signed i) (config : Config) (cap : Int) :
    ((pass.capped cap).run ms (pass.start config)).error ≠ none := by
  have hfail : ∃ path m, pass.Holds i path m ∧ ¬ (pass.scanner i path m).Signed := by
    simpa [Signed] using hunsigned
  obtain ⟨path, m, hfile, hunsigned⟩ := hfail
  apply Driver.run_error_of_failing (P := pass.Honest) (fun _ => rfl)
  · intro j _ s hs
    exact pass.prepare_honest j hs
  · intro j _ s hs
    have hana := pass.analyze_honest j hs
    unfold Driver.analyzeStep
    simp only [capped, modulePass]
    generalize pass.analyze j s = r at hana ⊢
    obtain ⟨result, t⟩ := r
    cases result <;> exact hana
  · exact ⟨i, hi, fun s hs => analyze_error hpaths hfile hunsigned hs⟩
  · intro path hpath
    cases hpath

/-- A run succeeds exactly if every indirect call of the visited modules has a function type. -/
theorem run_error_iff {pass : Pass} (hpaths : pass.DistinctPaths) {ms : List Nat} (hms : ms.Nodup)
    (config : Config) (cap : Int) :
    ((pass.capped cap).run ms (pass.start config)).error = none ↔
      ∀ i ∈ ms, pass.Signed i := by
  constructor
  · intro hok i hi
    by_contra hunsigned
    exact run_of_unsigned hpaths hi hunsigned config cap hok
  · intro hsigned
    exact (run_of_signed hpaths hms hsigned config cap).1

end CallTargets.Pass
