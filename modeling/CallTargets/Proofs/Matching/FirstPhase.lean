import CallTargets.Proofs.Matching.Permutation
import CallTargets.Proofs.Matching.Recorded

/-!
# The first phase reaches the fixpoint

A run that succeeds learns nothing after its first round of preparation and changes no call after
its first phase, so a second phase only finds this out. The main statement gives the report of a run
by the number of modules that have a call with targets, and says that the cap on the phases decides
nothing but how many phases there are.
-/
namespace CallTargets

open IR

/-! ### Settings do not show in what is gathered -/

namespace Context

def withConfig (c : Context) (config : Config) : Context := { c with config := config }

/-- An operation on the state that neither looks at the settings nor changes them. -/
def Blind (f : Context → Bool × Context) : Prop :=
  ∀ c config, f (c.withConfig config) = ((f c).1, (f c).2.withConfig config)

theorem applyAll_blind {α : Type} {f : Context → α → Bool × Context}
    (h : ∀ a, Blind fun c => f c a) (as : List α) (changed : Bool) :
    Blind (applyAll f as changed) := by
  intro c config
  induction as generalizing changed c with
  | nil => rfl
  | cons a as ih =>
    have ha := h a c config
    dsimp only at ha
    rw [applyAll, applyAll, ha]
    exact ih _ _

theorem updateInfo_blind (f : FuncId) (g : FuncInfo → Bool × FuncInfo) :
    Blind fun c => c.updateInfo f g := by
  intro c config
  have hsame : (c.withConfig config).infos = c.infos := rfl
  dsimp only [updateInfo]
  rw [hsame]
  cases c.infos.get? f <;> rfl

theorem addCall_blind (cs : CallSite) :
    Blind fun c => ((c.addCall cs).1, (c.addCall cs).2.2) := by
  intro c config
  have hsame : (c.withConfig config).sites = c.sites := rfl
  dsimp only [addCall]
  rw [hsame]
  cases c.sites.get? cs.id <;> rfl

theorem markVisible_blind (salted : Signature) : Blind fun c => c.markVisible salted := by
  intro c config
  by_cases h : salted ∈ c.visible <;> simp [markVisible, withConfig, h]

theorem markReferenced_blind (module global : ByteString) :
    Blind fun c => c.markReferenced module global := by
  intro c config
  have hsame : (c.withConfig config).references module global = c.references module global := rfl
  dsimp only [markReferenced]
  rw [hsame]
  split <;> rfl

end Context

namespace Pass

open Context (Blind)

theorem enroll_blind (pass : Pass) (s : Symbol) : Blind fun c => pass.enroll c s := by
  intro c config
  have hsame : (c.withConfig config).info? s.id = c.info? s.id := rfl
  have hinfos : (c.withConfig config).infos = c.infos := rfl
  dsimp only [enroll]
  rw [hsame]
  cases c.info? s.id with
  | some fi => rfl
  | none =>
    cases pass.program.func? s.id with
    | none => rfl
    | some f =>
      dsimp only [Context.addTaken]
      rw [hinfos]
      cases c.infos.get? (FuncInfo.ofSymbol s (pass.program.path s.id.module) (.ofFunc f)).id <;>
        rfl

theorem recordFact_blind (pass : Pass) (module : Nat) (fact : Fact) :
    Blind fun c => pass.recordFact module c fact := by
  intro c config
  have hsame (f : Nat) : pass.canonical? (c.withConfig config) module f =
      pass.canonical? c module f := rfl
  cases fact with
  | taken f how =>
    simp only [recordFact, hsame]
    cases pass.canonical? c module f with
    | none => rfl
    | some s =>
      have henroll := pass.enroll_blind s c config
      have hupdate := Context.updateInfo_blind s.id (fun fi => fi.markEscape how)
        (pass.enroll c s).2 config
      dsimp only at henroll hupdate
      simp only [recordTaken_eq, henroll, hupdate]
  | evidence f owner field =>
    simp only [recordFact, hsame]
    cases pass.canonical? c module f with
    | none => rfl
    | some s => exact Context.updateInfo_blind s.id _ c config
  | published f global =>
    simp only [recordFact, hsame]
    cases pass.canonical? c module f with
    | none => rfl
    | some s => exact Context.updateInfo_blind s.id _ c config
  | call cs => exact Context.addCall_blind cs c config

theorem registerVisible_blind (pass : Pass) (path : ByteString) (m : Module) :
    Blind (pass.registerVisible path m) := by
  intro c config
  have htypes := Context.applyAll_blind
    (fun st => Context.markVisible_blind (pass.mark path m st)) m.structTypes false c config
  simp only [registerVisible_eq, htypes]
  exact Context.applyAll_blind (fun g => Context.markReferenced_blind path g) m.exportedGlobals _ _
    config

theorem absorb_blind (pass : Pass) (module : Nat) : Blind (pass.absorb module) := by
  intro c config
  obtain ⟨path, m, hfile⟩ | hnot := pass.holds_or_empty module
  · have hfacts (c : Context) := Context.applyAll_blind (pass.recordFact_blind module)
      (pass.facts module) false c config
    simp only [absorb, hfile, pass.registerVisible_blind path m c config, recordFacts_eq, hfacts]
  · rw [absorb_of_empty hnot, absorb_of_empty hnot]

/-- What is gathered under other settings differs in the settings alone. -/
theorem gathered_withConfig (pass : Pass) (config config' : Config) (ms : List Nat) :
    pass.gathered config' ms = (pass.gathered config ms).withConfig config' := by
  have hvisit (c : Context) : Driver.visit pass.absorb ms (c.withConfig config') =
      (Driver.visit pass.absorb ms c).withConfig config' := by
    induction ms generalizing c with
    | nil => rfl
    | cons i ms ih =>
      rw [Driver.visit_cons, Driver.visit_cons, pass.absorb_blind i c config', ih]
  exact hvisit (.start config pass.program.symbols)

/-- Which targets a call gets is decided by the two refinements alone. -/
theorem matched_withConfig (c : Context) {config : Config}
    (hmodule : config.byModule = c.config.byModule) (hfield : config.byField = c.config.byField)
    (cs : CallSite) : matched (c.withConfig config) cs = matched c cs := by
  have hfirst : firstLayer (c.withConfig config) cs = firstLayer c cs := by
    have hbits : (c.withConfig config).config.byModule = c.config.byModule := hmodule
    rw [firstLayer, firstLayer, hbits]
    rfl
  have hbits : (c.withConfig config).config.byField = c.config.byField := hfield
  have hcandidates : candidates (c.withConfig config) cs = candidates c cs := by
    rw [candidates, candidates, hfirst, hbits]
  rw [matched, matched, hcandidates]

/-! ### The modules that the first phase changes -/

variable {pass : Pass} {config : Config} {ms : List Nat} {c : Context}

/-- Before the first phase no call has targets, so it changes the modules whose calls get some. -/
theorem Resolved.matchModule_changes (h : pass.Resolved config ms c)
    (hpaths : pass.DistinctPaths) {i : Nat} {file : ModuleFile}
    (hfile : pass.program[i]? = some file) :
    (pass.matchModule i (pass.gathered config ms)).1 =
      c.callSites.any fun cs => cs.module = file.path && !cs.callees.isEmpty := by
  have hindexed := pass.gathered_indexed config ms
  obtain ⟨path, content⟩ := file
  rw [h.callSites_eq, List.any_map]
  cases content with
  | some m =>
    obtain ⟨sites, happly, -⟩ := matchModule_of_hosts ⟨m, hfile⟩ hindexed
    rw [happly, hindexed.callSitesIn_eq, List.any_filter, Bool.eq_iff_iff, List.any_eq_true,
      List.any_eq_true]
    refine exists_congr fun cs => and_congr_right fun hcs => ?_
    have hempty : cs.callees = [] :=
      pass.gathered_unmatched config ms (hindexed.mem_callSites.mp hcs)
    have houtdated : outdated (pass.gathered config ms) cs =
        !(matched (pass.gathered config ms) cs).callees.isEmpty := by
      rw [outdated, hempty]
      cases (matched (pass.gathered config ms) cs).callees <;> rfl
    rw [houtdated]
    rfl
  | none =>
    have hnot : ∀ path', ¬ pass.Hosts i path' := by
      rintro path' ⟨m, hm⟩
      have heq := hfile.symm.trans hm
      cases heq
    rw [matchModule_of_empty hnot]
    refine (List.any_eq_false.mpr fun cs hcs => ?_).symm
    -- A recorded call has the path of a module with a content, and no other has this path.
    obtain ⟨j, -, m, hj⟩ := pass.gathered_placed config ms (hindexed.mem_callSites.mp hcs)
    intro hpath
    have hmodule : cs.module = path := by
      simp only [Function.comp_apply, Bool.and_eq_true, decide_eq_true_eq] at hpath
      exact hpath.1
    have hij : i = j := by
      apply (List.getElem?_inj (by simpa using (List.getElem?_eq_some_iff.mp hfile).1) hpaths).mp
      rw [List.getElem?_map, List.getElem?_map, hfile, hj]
      simp [hmodule]
    subst hij
    exact hnot _ ⟨m, hj⟩

end Pass

def AnalysisResult.modulesWithTargets (r : AnalysisResult) (p : Program) : Nat :=
  p.countP fun file => r.context.callSites.any fun cs =>
    cs.module = file.path && !cs.callees.isEmpty

theorem Pass.Resolved.changes_eq {p : Program} {config : Config} {r : AnalysisResult}
    (h : (Pass.ofProgram p).Resolved config (List.range p.length) r.context)
    (hpaths : (p.map ModuleFile.path).Nodup) :
    Driver.changes (Pass.ofProgram p).matchModule (List.range p.length)
      ((Pass.ofProgram p).gathered config (List.range p.length)) = r.modulesWithTargets p := by
  rw [Pass.changes_matchModule hpaths List.nodup_range (Pass.gathered_indexed _ config _),
    AnalysisResult.modulesWithTargets]
  conv_rhs => rw [← List.zipIdx_map_fst 0 p]
  conv_lhs => enter [2]; rw [p.range_eq]
  rw [List.countP_map, List.countP_map]
  refine List.countP_congr fun x hx => ?_
  rw [Function.comp_apply, Function.comp_apply,
    h.matchModule_changes hpaths (List.mk_mem_zipIdx_iff_getElem?.mp hx)]

/-! ### Reports and statistics -/

theorem Driver.phaseChanges_cap {σ μ ε : Type} (d : Driver σ μ ε) (changed : Nat) :
    phaseChanges d.cap changed =
      if 0 < changed ∧ 2 ≤ d.maxPhases then [changed, 0] else [changed] := by
  have hcap : d.cap = 1 ↔ ¬ 2 ≤ d.maxPhases := by
    unfold cap
    omega
  by_cases htwice : 0 < changed ∧ 2 ≤ d.maxPhases
  · rw [phaseChanges, if_pos htwice, if_neg (by omega)]
  · rw [phaseChanges, if_neg htwice, if_pos (by omega)]

theorem Pass.Resolved.addressTaken_eq {pass : Pass} {config : Config} {ms : List Nat}
    {c : Context} (h : pass.Resolved config ms c) :
    c.addressTaken = (pass.gathered config ms).addressTaken := by
  obtain ⟨sites, stats, rfl⟩ := h.frame
  rfl

section

variable {options : AnalysisOptions} {fs : Files} {p : Program} {r : AnalysisResult}

theorem analyze_report (hpaths : (p.map ModuleFile.path).Nodup)
    (h : analyze options fs p = .ok r) :
    r.report = (Pass.ofProgram p).expectedReport options.config options.config.phases
      (List.range p.length) := by
  obtain ⟨-, hok, hreport, -⟩ := analyze_ok h
  rw [Pass.driver_eq] at hok hreport
  have hsigned := (Pass.run_error_iff hpaths List.nodup_range _ _).mp hok
  rw [hreport]
  exact (Pass.run_of_signed hpaths List.nodup_range hsigned _ _).2.2.1

/-- The statistics are counted from the final records; only the number of phases is added. -/
theorem analyze_stats (hpaths : (p.map ModuleFile.path).Nodup)
    (h : analyze options fs p = .ok r) :
    r.stats = (Stats.zero.record r.context.callSites r.context.addressTaken.length).setPhases
      r.report.phases := by
  obtain ⟨hne, hok, hreport, hcontext, hstats, -⟩ := analyze_ok h
  rw [Pass.driver_eq] at hok hreport hcontext
  have hsigned := (Pass.run_error_iff hpaths List.nodup_range _ _).mp hok
  have hcount := (Pass.run_of_signed hpaths List.nodup_range hsigned options.config
    options.config.phases).2.2.2.2 (by simpa using hne)
  rw [hstats, hreport, hcontext]
  exact congrArg (Stats.setPhases · _) hcount

theorem analyze_same_refinements (hpaths : (p.map ModuleFile.path).Nodup)
    {options' : AnalysisOptions} {r' : AnalysisResult}
    (h : analyze options fs p = .ok r) (h' : analyze options' fs p = .ok r')
    (hmodule : options'.config.byModule = options.config.byModule)
    (hfield : options'.config.byField = options.config.byField) :
    r'.context.callSites = r.context.callSites ∧
      r'.context.addressTaken = r.context.addressTaken := by
  have hresolved := analyze_resolved hpaths h
  have hresolved' := analyze_resolved hpaths h'
  have hgathered := (Pass.ofProgram p).gathered_withConfig options.config options'.config
    (List.range p.length)
  constructor
  · rw [hresolved.callSites_eq, hresolved'.callSites_eq, hgathered]
    exact List.map_congr_left fun cs _ => Pass.matched_withConfig _
      (by rw [hmodule, Pass.gathered_config]) (by rw [hfield, Pass.gathered_config]) cs
  · rw [hresolved.addressTaken_eq, hresolved'.addressTaken_eq, hgathered]
    rfl

/-- A successful analysis prepares in at most two rounds and finishes in one. Its first phase
changes the modules that have a call with targets, and a second phase changes none. Another cap
leads to the same calls and to the same statistics, the number of phases apart. -/
theorem analyze_settles_in_first_phase (hpaths : (p.map ModuleFile.path).Nodup)
    (h : analyze options fs p = .ok r) :
    let twice := 0 < r.modulesWithTargets p ∧ 2 ≤ options.config.phases
    r.report.initRounds ≤ 2 ∧ r.report.finalRounds = 1 ∧
      r.report.changedPerPhase =
        (if twice then [r.modulesWithTargets p, 0] else [r.modulesWithTargets p]) ∧
      r.report.phases = (if twice then 2 else 1) ∧
      ∀ cap, ∃ r', analyze ⟨{ options.config with maxPhases := cap }, options.sourceRoot⟩ fs p =
          .ok r' ∧
        r'.context.callSites = r.context.callSites ∧
        r'.stats = { r.stats with phases := r'.stats.phases } := by
  have hcounts : (Pass.ofProgram p).phaseCounts options.config options.config.phases
      (List.range p.length) = if 0 < r.modulesWithTargets p ∧ 2 ≤ options.config.phases then
        [r.modulesWithTargets p, 0] else [r.modulesWithTargets p] := by
    rw [Pass.phaseCounts, (analyze_resolved hpaths h).changes_eq hpaths, Driver.phaseChanges_cap]
    rfl
  rw [analyze_report hpaths h]
  refine ⟨?_, rfl, hcounts, ?_, fun cap => ?_⟩
  · simp only [Pass.expectedReport, Driver.roundsFor]
    split <;> omega
  · simp only [Pass.expectedReport, hcounts]
    split <;> rfl
  · obtain ⟨r', h'⟩ : ∃ r', analyze ⟨{ options.config with maxPhases := cap },
        options.sourceRoot⟩ fs p = .ok r' :=
      (exists_analyze_ok_iff hpaths).mpr ((exists_analyze_ok_iff hpaths).mp ⟨r, h⟩)
    obtain ⟨hcalls, htaken⟩ := analyze_same_refinements hpaths h h' rfl rfl
    refine ⟨r', h', hcalls, ?_⟩
    rw [analyze_stats hpaths h, analyze_stats hpaths h', hcalls, htaken]
    rfl

end

theorem analyze_settles_in_first_phase_table :
    (Table.program.map ModuleFile.path).Nodup ∧
      ∃ r r', analyze ⟨.standard, ""⟩ default Table.program = .ok r ∧
        r.report.changedPerPhase = [1, 0] ∧ r.report.phases = 2 ∧
        analyze ⟨{ Config.standard with maxPhases := 1 }, ""⟩ default Table.program = .ok r' ∧
        r'.context.callSites = r.context.callSites := by
  have hpaths : (Table.program.map ModuleFile.path).Nodup := by decide +kernel
  have hcount : (analyze ⟨.standard, ""⟩ default Table.program).toOption.map
      (fun r => r.modulesWithTargets Table.program) = some 1 := by decide +kernel
  cases hr : analyze ⟨.standard, ""⟩ default Table.program with
  | error e =>
    rw [hr] at hcount
    cases hcount
  | ok r =>
    rw [hr] at hcount
    have hone : r.modulesWithTargets Table.program = 1 := Option.some.inj hcount
    obtain ⟨-, -, hchanged, hphases, hcap⟩ := analyze_settles_in_first_phase hpaths hr
    obtain ⟨r', hr', hcalls, -⟩ := hcap 1
    rw [hone] at hchanged hphases
    exact ⟨hpaths, r, r', rfl, hchanged, hphases, hr', hcalls⟩

end CallTargets
