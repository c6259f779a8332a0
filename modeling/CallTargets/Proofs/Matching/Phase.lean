import CallTargets.Analysis
import CallTargets.Proofs.Discovery.Preparation

/-!
# Phases of matching

Matching replaces the record of a call by one that depends on the functions, on what is visible and
on the call, but not on the targets of any call. So a phase brings every call of the visited modules
to its final record whatever the order of the visits, and the next phase finds nothing to do.
-/
namespace CallTargets

open IR

namespace Pass

/-! ### One call -/

/-- A call with the targets that the state of the analysis gives it. -/
def matched (c : Context) (cs : CallSite) : CallSite :=
  { cs with
    layer := (candidates c cs).1
    callees := Target.normalize ((candidates c cs).2.map FuncInfo.target) }

def outdated (c : Context) (cs : CallSite) : Bool :=
  (matched c cs).callees != cs.callees

theorem resolveCall_eq (c : Context) (cs : CallSite) :
    resolveCall c cs = (outdated c cs, c.putSite (matched c cs)) :=
  rfl

@[simp] theorem matched_matched (c : Context) (cs : CallSite) :
    matched c (matched c cs) = matched c cs :=
  rfl

/-- The targets of a call do not hang on the targets of others. -/
@[simp] theorem matched_sites (c : Context) (sites : Assoc CallId CallSite) (cs : CallSite) :
    matched { c with sites := sites } cs = matched c cs :=
  rfl

theorem resolveCall_steps {c : Context} {cs : CallSite} (h : c.site? cs.id = some cs) :
    c.Steps (resolveCall c cs).2 :=
  .single (.site c cs (matched c cs) h rfl rfl)

theorem resolveCall_of_matched {c : Context} {cs : CallSite} (h : c.site? cs.id = some cs)
    (hm : matched c cs = cs) : resolveCall c cs = (false, c) := by
  have hput : c.putSite cs = c := by
    rw [Context.putSite, Assoc.put_of_get? h]
  rw [resolveCall_eq, outdated, hm, hput]
  simp

/-! ### The calls of a module -/

theorem resolveAll {calls : List CallSite} (hids : (calls.map CallSite.id).Nodup) {c : Context}
    (hc : c.Indexed) (hcalls : ∀ cs ∈ calls, c.site? cs.id = some cs) (changed : Bool) :
    ∃ sites, Context.applyAll resolveCall calls changed c =
        (changed || calls.any (outdated c), { c with sites := sites }) ∧
      Context.Indexed { c with sites := sites } ∧
      ∀ id, sites.get? id =
        (c.site? id).map fun cs => if cs ∈ calls then matched c cs else cs := by
  induction calls generalizing c changed with
  | nil => exact ⟨c.sites, by simp [Context.applyAll], hc, by simp [Context.site?]⟩
  | cons a calls ih =>
    obtain ⟨ha, hids⟩ := List.nodup_cons.mp hids
    have hnot : ∀ cs ∈ calls, a.id ≠ cs.id :=
      fun cs hcs heq => ha (List.mem_map.mpr ⟨cs, hcs, heq.symm⟩)
    have hknown := hcalls a List.mem_cons_self
    have hc' : (resolveCall c a).2.Indexed := (resolveCall_steps hknown).indexed hc
    have hcalls' : ∀ cs ∈ calls, (resolveCall c a).2.site? cs.id = some cs := by
      intro cs hcs
      rw [← hcalls cs (List.mem_cons_of_mem a hcs)]
      exact Assoc.get?_put_of_ne (hnot cs hcs) _ _
    obtain ⟨sites, happly, hindexed, hsites⟩ := ih hids hc' hcalls' (changed || outdated c a)
    refine ⟨sites, ?_, hindexed, ?_⟩
    · rw [Context.applyAll, resolveCall_eq]
      simp only [resolveCall_eq] at happly
      rw [happly, List.any_cons, Bool.or_assoc]
      rfl
    · intro id
      have hput : (resolveCall c a).2.site? id =
          if a.id = id then some (matched c a) else c.site? id :=
        Assoc.get?_put _ _ _ _
      rw [hsites id, hput]
      by_cases hid : a.id = id
      · subst hid
        simp [hknown, resolveCall_eq, Context.putSite]
      · rw [if_neg hid]
        cases hcs : c.site? id with
        | none => rfl
        | some cs =>
          have hne : cs ≠ a := by
            rintro rfl
            exact hid (hc.calls.key_eq id cs hcs)
          simp [hne, resolveCall_eq, Context.putSite]

/-- Matching all calls of a path brings each of them to its final record. -/
theorem resolveCallsIn {c : Context} (hc : c.Indexed) (path : ByteString) (changed : Bool) :
    ∃ sites, Context.applyAll resolveCall (c.callSitesIn path) changed c =
        (changed || (c.callSitesIn path).any (outdated c), { c with sites := sites }) ∧
      Context.Indexed { c with sites := sites } ∧
      ∀ id, sites.get? id =
        (c.site? id).map fun cs => if cs.module = path then matched c cs else cs := by
  have hids : ((c.callSitesIn path).map CallSite.id).Nodup := by
    rw [hc.callSitesIn_eq]
    exact hc.callSites_nodup.sublist (List.filter_sublist.map CallSite.id)
  obtain ⟨sites, happly, hindexed, hsites⟩ :=
    resolveAll hids hc (fun cs hcs => (hc.mem_callSitesIn.mp hcs).1) changed
  refine ⟨sites, happly, hindexed, ?_⟩
  intro id
  rw [hsites id]
  cases hcs : c.site? id with
  | none => rfl
  | some cs =>
    have hid : cs.id = id := hc.calls.key_eq id cs hcs
    have hiff : cs ∈ c.callSitesIn path ↔ cs.module = path := by
      rw [hc.mem_callSitesIn, hid, hcs]
      simp
    simp [hiff]

def matchModule (pass : Pass) (module : Nat) (c : Context) : Bool × Context :=
  match pass.program[module]? with
  | some ⟨path, some _⟩ => Context.applyAll resolveCall (c.callSitesIn path) false c
  | _ => (false, c)

theorem matchModule_of_hosts {pass : Pass} {module : Nat} {path : ByteString}
    (h : pass.Hosts module path) {c : Context} (hc : c.Indexed) :
    ∃ sites, pass.matchModule module c =
        ((c.callSitesIn path).any (outdated c), { c with sites := sites }) ∧
      Context.Indexed { c with sites := sites } ∧
      ∀ id, sites.get? id =
        (c.site? id).map fun cs => if cs.module = path then matched c cs else cs := by
  obtain ⟨m, hfile⟩ := h
  obtain ⟨sites, happly, hindexed, hsites⟩ := resolveCallsIn hc path false
  refine ⟨sites, ?_, hindexed, hsites⟩
  simp only [matchModule, hfile, happly, Bool.false_or]

theorem matchModule_of_empty {pass : Pass} {module : Nat} (h : ∀ path, ¬ pass.Hosts module path)
    (c : Context) : pass.matchModule module c = (false, c) := by
  unfold matchModule
  split
  · next path m hfile => exact absurd ⟨m, hfile⟩ (h path)
  · rfl

/-! ### Phases -/

open Classical in
/-- Visits bring every call of the visited modules to its final record. -/
theorem visit_matchModule (pass : Pass) (ms : List Nat) {c : Context} (hc : c.Indexed) :
    ∃ sites, Driver.visit pass.matchModule ms c = { c with sites := sites } ∧
      Context.Indexed { c with sites := sites } ∧
      ∀ id, sites.get? id = (c.site? id).map fun cs =>
        if ∃ i ∈ ms, pass.Hosts i cs.module then matched c cs else cs := by
  induction ms generalizing c with
  | nil => exact ⟨c.sites, rfl, hc, by simp [Context.site?]⟩
  | cons i ms ih =>
    rw [Driver.visit_cons]
    by_cases hhost : ∃ path, pass.Hosts i path
    · obtain ⟨path, hpath⟩ := hhost
      have honly : ∀ path', pass.Hosts i path' ↔ path' = path := by
        intro path'
        constructor
        · rintro ⟨m', h'⟩
          obtain ⟨m, h⟩ := hpath
          exact (h'.file_eq h).1
        · rintro rfl
          exact hpath
      obtain ⟨sites, happly, hindexed, hsites⟩ := matchModule_of_hosts hpath hc
      rw [happly]
      obtain ⟨sites', hvisit, hindexed', hsites'⟩ := ih hindexed
      refine ⟨sites', hvisit, hindexed', ?_⟩
      intro id
      rw [hsites' id, Context.site?, hsites id, Option.map_map]
      congr 1
      funext cs
      have hfield : (if cs.module = path then matched c cs else cs).module = cs.module := by
        split <;> rfl
      simp only [Function.comp_apply, hfield, List.mem_cons, exists_eq_or_imp, honly, matched_sites]
      by_cases hm : cs.module = path
      · simp [hm]
      · simp [hm]
    · rw [matchModule_of_empty (not_exists.mp hhost)]
      obtain ⟨sites, hvisit, hindexed, hsites⟩ := ih hc
      refine ⟨sites, hvisit, hindexed, ?_⟩
      intro id
      have hnot : ∀ path, ¬ pass.Hosts i path := not_exists.mp hhost
      simp only [hsites id, List.mem_cons, exists_eq_or_imp, hnot, false_or]

/-- Matching the calls of one module leaves those of another alone. -/
theorem matchModule_other {pass : Pass} (hpaths : pass.DistinctPaths) {i j : Nat} (hij : i ≠ j)
    {c : Context} (hc : c.Indexed) :
    (pass.matchModule j (pass.matchModule i c).2).1 = (pass.matchModule j c).1 := by
  by_cases hi : ∃ path, pass.Hosts i path
  · by_cases hj : ∃ path, pass.Hosts j path
    · obtain ⟨path, hi⟩ := hi
      obtain ⟨path', hj⟩ := hj
      have hne : path' ≠ path := by
        rintro rfl
        obtain ⟨m, hi⟩ := hi
        obtain ⟨m', hj⟩ := hj
        exact hij (hi.module_eq hj hpaths)
      obtain ⟨sites, happly, hindexed, hsites⟩ := matchModule_of_hosts hi hc
      obtain ⟨_, hfirst, -⟩ := matchModule_of_hosts hj hc
      obtain ⟨_, hsecond, -⟩ := matchModule_of_hosts hj hindexed
      have hsame : Context.callSitesIn { c with sites := sites } path' = c.callSitesIn path' := by
        apply List.filterMap_congr
        intro id hid
        have hmodule := (List.mem_filter.mp (hc.calls.index_eq path' ▸ hid)).2
        rw [Context.site?, hsites id]
        cases hcs : c.site? id with
        | none => rfl
        | some cs =>
          rw [Context.site?] at hcs
          rw [hcs] at hmodule
          have hcs' : cs.module = path' := by simpa using hmodule
          simp [hcs', hne]
      rw [happly, hsecond, hfirst, hsame]
      rfl
    · rw [matchModule_of_empty (not_exists.mp hj), matchModule_of_empty (not_exists.mp hj)]
  · rw [matchModule_of_empty (not_exists.mp hi)]

/-- The modules that a phase changes are those whose calls are not all matched before it. -/
theorem changes_matchModule {pass : Pass} (hpaths : pass.DistinctPaths) {ms : List Nat}
    (hms : ms.Nodup) {c : Context} (hc : c.Indexed) :
    Driver.changes pass.matchModule ms c = ms.countP fun i => (pass.matchModule i c).1 := by
  induction ms generalizing c with
  | nil => rfl
  | cons i ms ih =>
    obtain ⟨hi, hms⟩ := List.nodup_cons.mp hms
    obtain ⟨sites, happly, hindexed, -⟩ := pass.visit_matchModule [i] hc
    rw [Driver.visit_cons, Driver.visit_nil] at happly
    have hrest := ih hms (c := (pass.matchModule i c).2) (happly ▸ hindexed)
    rw [Driver.changes, hrest, List.countP_cons, Nat.add_comm]
    congr 1
    apply List.countP_congr
    intro j hj
    have hij : i ≠ j := by
      rintro rfl
      exact hi hj
    rw [matchModule_other hpaths hij hc]

/-! ### The phases of the pass -/

theorem analyze_of_known {pass : Pass} {ms : List Nat} {s : PassState} (h : pass.Known ms s)
    {i : Nat} (hi : i ∈ ms) :
    pass.analyze i s = (.ok (pass.matchModule i s.context).1,
      { s with context := (pass.matchModule i s.context).2 }) := by
  obtain ⟨path, m, hfile⟩ | hnot := pass.holds_or_empty i
  · simp only [analyze, matchModule, hfile, ← Context.foldl_eq_applyAll]
    rw [pass.discover_of_known i m (h.discovered i hi path m hfile)]
  · have hempty : ∀ path, ¬ pass.Hosts i path := by
      rintro path ⟨m, hm⟩
      exact hnot path m hm
    rw [matchModule_of_empty hempty]
    unfold analyze
    split
    · next path m hm => exact absurd hm (hnot path m)
    · rfl

theorem Known.withSites {pass : Pass} {ms : List Nat} {s : PassState} (h : pass.Known ms s)
    (sites : Assoc CallId CallSite) :
    pass.Known ms { s with context := { s.context with sites := sites } } where
  discovered := h.discovered
  seen i hi path m hfile := ⟨(h.seen i hi path m hfile).types, (h.seen i hi path m hfile).globals⟩

def capped (pass : Pass) (cap : Int) : Driver PassState Nat NoSignature where
  pass := pass.modulePass
  path := pass.program.path
  maxPhases := cap
  cancelled := fun _ => false

theorem driver_eq (pass : Pass) (config : Config) :
    pass.driver config = pass.capped config.phases :=
  rfl

/-- A phase over known modules matches the calls of each and cannot fail. -/
theorem visit_analyze {pass : Pass} (cap : Int) {all ms : List Nat} (hms : ms ⊆ all)
    {s : PassState} (hknown : pass.Known all s) (hc : s.context.Indexed) :
    (pass.capped cap).Passes ms s ∧
      Driver.visit (pass.capped cap).analyzeStep ms s =
        { s with context := Driver.visit pass.matchModule ms s.context } ∧
      Driver.changes (pass.capped cap).analyzeStep ms s =
        Driver.changes pass.matchModule ms s.context := by
  induction ms generalizing s with
  | nil => exact ⟨trivial, rfl, rfl⟩
  | cons i ms ih =>
    have hi : i ∈ all := hms List.mem_cons_self
    have hana := analyze_of_known hknown hi
    have hstep : (pass.capped cap).analyzeStep i s =
        ((pass.matchModule i s.context).1,
          { s with context := (pass.matchModule i s.context).2 }) := by
      rw [Driver.analyzeStep]
      simp only [capped, modulePass, hana]
    obtain ⟨sites, hmatch, hindexed, -⟩ := pass.visit_matchModule [i] hc
    rw [Driver.visit_cons, Driver.visit_nil] at hmatch
    obtain ⟨hpasses, hvisit, hchanges⟩ := ih (fun j hj => hms (List.mem_cons_of_mem i hj))
      (hmatch ▸ hknown.withSites sites) (hmatch ▸ hindexed)
    refine ⟨⟨⟨(pass.matchModule i s.context).1, ?_⟩, ?_⟩, ?_, ?_⟩
    · simp only [capped, modulePass, hana]
    · rw [hstep]
      exact hpasses
    · rw [Driver.visit_cons, hstep, hvisit, Driver.visit_cons]
    · rw [Driver.changes, hstep, hchanges, Driver.changes]

/-- A phase over calls that are all matched changes nothing. -/
theorem analyze_of_matched {pass : Pass} {ms : List Nat} {s : PassState} (hknown : pass.Known ms s)
    (hc : s.context.Indexed)
    (hmatched : ∀ id cs, s.context.site? id = some cs → matched s.context cs = cs) {i : Nat}
    (hi : i ∈ ms) : pass.analyze i s = (.ok false, s) := by
  have hidle : pass.matchModule i s.context = (false, s.context) := by
    unfold matchModule
    split
    · next path m _ =>
      apply Context.applyAll_of_idle
      intro cs hcs
      have hsite := (hc.mem_callSitesIn.mp hcs).1
      exact resolveCall_of_matched hsite (hmatched cs.id cs hsite)
    · rfl
  rw [analyze_of_known hknown hi, hidle]

end Pass
end CallTargets
