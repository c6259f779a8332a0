import CallTargets.Proofs.Discovery.CallOrder
import CallTargets.Proofs.Discovery.Layouts
import CallTargets.Proofs.Fixpoint.Invariants
import CallTargets.Proofs.Layout.Endless
import CallTargets.Proofs.Matching.Declarative

/-!
# Runs that fail

A scan that fails leaves its module half recorded, and preparation goes on with the other modules.
But such a module never counts as scanned, so the first phase scans it again and fails at the same
call. The main statement is that an analysis that ends fails exactly if some indirect call has no
signature, that the failure names the first such call of the program, and that the last stage is not
reached. An analysis does not end if the first scan of some module comes to a search without an end,
and it ends if the modules have no vectors that cannot be aligned.
-/
namespace CallTargets

open IR

theorem ModuleFile.path_of_mem_calls {file : ModuleFile} {i : Nat} {c : PlacedCall}
    (h : c ∈ file.calls i) : c.path = file.path := by
  unfold calls at h
  split at h
  · simp only [List.mem_flatMap, List.mem_filterMap, Option.map_eq_some_iff] at h
    obtain ⟨_, _, _, _, _, _, _, _, rfl⟩ := h
    rfl
  · cases h

namespace Pass

variable {pass : Pass} {i : Nat} {s : PassState}

/-! ### One module -/

/-- A scan of a new module fails at its first call without a signature, whatever is on record. -/
theorem discover_complaint (pass : Pass) (i : Nat) {path : ByteString} (m : Module)
    (h : path ∉ s.discovered) :
    (pass.discover i path m s).2.1 =
      (((⟨path, some m⟩ : ModuleFile).calls i).find? fun c => decide c.Unsigned).map
        PlacedCall.complaint := by
  rw [discover, if_neg h]
  dsimp only
  generalize (s.layouts.get? path).getD (.ofText m.dataLayout) = data
  generalize (⟨(s.caches.get? i).getD [], false⟩ : Memory) = memory
  let sc : Scanner := ⟨i, path, m, ⟨pass.names, m.typeDefs⟩, ⟨data, m.typeDefs⟩⟩
  have hfail := sc.scan_failure memory
  rw [sc.findSome?_unsigned?, sc.steps_placed] at hfail
  rw [← hfail]
  generalize sc.scan memory = r
  obtain ⟨⟨facts, failure⟩, memory'⟩ := r
  cases failure <;> rfl

theorem signed_iff_find? {file : ModuleFile} (hfile : pass.program[i]? = some file) :
    pass.Signed i ↔ ((file.calls i).find? fun c => decide c.Unsigned) = none := by
  obtain ⟨path, content⟩ := file
  cases content with
  | none => simp [Signed, hfile, ModuleFile.calls]
  | some m =>
    have hscan : (pass.scanner i path m).Signed ↔
        (((⟨path, some m⟩ : ModuleFile).calls i).find? fun c => decide c.Unsigned) = none := by
      have hnew : path ∉ (pass.start default).discovered := List.not_mem_nil
      rw [← Option.map_eq_none_iff (f := PlacedCall.complaint), ← pass.discover_complaint i m hnew]
      exact (discover_failure hnew).symm
    rw [← hscan]
    constructor
    · intro h
      exact h path m hfile
    · intro h path' m' hfile'
      obtain ⟨rfl, rfl⟩ := Holds.file_eq hfile hfile'
      exact h

theorem analyze_of_signed (h : pass.Signed i) (s : PassState) :
    ∃ new, (pass.analyze i s).1 = .ok new := by
  obtain ⟨path, m, hfile⟩ | hnot := pass.holds_or_empty i
  · have hok : (pass.discover i path m s).2.1 = none := by
      by_cases hp : path ∈ s.discovered
      · rw [pass.discover_of_known i m hp]
      · exact (discover_failure hp).mpr (h path m hfile)
    simp only [analyze, hfile]
    generalize pass.discover i path m s = r at hok ⊢
    obtain ⟨found, failure, t⟩ := r
    cases hok
    exact ⟨_, rfl⟩
  · exact ⟨false, by rw [analyze_of_empty hnot]⟩

/-- A module with a call that has no signature fails with the complaint about the first of them. -/
theorem analyze_of_unsigned (hpaths : pass.DistinctPaths) {file : ModuleFile}
    (hfile : pass.program[i]? = some file) {c : PlacedCall}
    (hc : ((file.calls i).find? fun c => decide c.Unsigned) = some c) (h : pass.Honest s) :
    (pass.analyze i s).1 = .error c.complaint := by
  obtain ⟨path, content⟩ := file
  cases content with
  | none => simp [ModuleFile.calls] at hc
  | some m =>
    -- Only modules without such a call count as scanned, so this one is scanned again.
    have hnew : path ∉ s.discovered := by
      intro hp
      obtain ⟨j, n, hj, hsigned⟩ := h path hp
      obtain rfl := hj.module_eq hfile hpaths
      obtain ⟨-, rfl⟩ := hj.file_eq hfile
      have hall : pass.Signed j := by
        intro path' m' hfile'
        obtain ⟨rfl, rfl⟩ := hj.file_eq hfile'
        exact hsigned
      rw [(signed_iff_find? hfile).mp hall] at hc
      cases hc
    have hfail := pass.discover_complaint i m hnew
    rw [hc] at hfail
    simp only [analyze, hfile]
    generalize pass.discover i path m s = r at hfail ⊢
    obtain ⟨found, failure, t⟩ := r
    cases hfail
    rfl

/-! ### States before the last stage -/

/-- The last stage was not reached, and no module with such a call counts as scanned. -/
structure Pending (pass : Pass) (s : PassState) : Prop where
  honest : pass.Honest s
  unfinished : s.finished = false

theorem start_pending (pass : Pass) (config : Config) : pass.Pending (pass.start config) where
  honest := by
    intro path hpath
    cases hpath
  unfinished := rfl

theorem discover_finished (pass : Pass) (i : Nat) (path : ByteString) (m : Module)
    (s : PassState) : (pass.discover i path m s).2.2.finished = s.finished := by
  by_cases hknown : path ∈ s.discovered
  · rw [pass.discover_of_known i m hknown]
  · obtain ⟨context, discovered, -, hstate⟩ := pass.discover_state i m hknown
    rw [hstate]

theorem Pending.discover (h : pass.Pending s) {path : ByteString} {m : Module}
    (hfile : pass.Holds i path m) : pass.Pending (pass.discover i path m s).2.2 where
  honest := discover_honest hfile h.honest
  unfinished := (pass.discover_finished i path m s).trans h.unfinished

theorem Pending.prepare (h : pass.Pending s) (i : Nat) : pass.Pending (pass.prepare i s).2 :=
  prepare_keeps (fun _ _ h => ⟨h.honest, h.unfinished⟩) (fun _ _ hfile _ h => h.discover hfile) h

theorem Pending.analyze (h : pass.Pending s) (i : Nat) : pass.Pending (pass.analyze i s).2 :=
  analyze_keeps (fun _ _ h => ⟨h.honest, h.unfinished⟩) (fun _ _ hfile _ h => h.discover hfile) h

/-! ### Searches without an end -/

theorem prepare_keeps_endless (pass : Pass) (i : Nat) {s : PassState} (h : s.endless = true) :
    (pass.prepare i s).2.endless = true :=
  prepare_keeps (P := fun s => s.endless = true) (fun _ _ h => h)
    (fun path m _ _ h => pass.discover_keeps_endless i path m h) h

theorem analyze_keeps_endless (pass : Pass) (i : Nat) {s : PassState} (h : s.endless = true) :
    (pass.analyze i s).2.endless = true :=
  analyze_keeps (P := fun s => s.endless = true) (fun _ _ h => h)
    (fun path m _ _ h => pass.discover_keeps_endless i path m h) h

theorem finish_endless (s : PassState) : (finish s).2.endless = s.endless := by
  unfold finish
  split <;> rfl

/-- The first visit of a module scans it with nothing remembered, so it marks the state. -/
theorem visit_prepare_endless (hpaths : pass.DistinctPaths) {path : ByteString} {m : Module}
    (hfile : pass.Holds i path m) (hstalls : pass.stalls i = true) {ms : List Nat} (hi : i ∈ ms)
    (hfresh : Fresh i path s) : (Driver.visit pass.prepare ms s).endless = true := by
  induction ms generalizing s with
  | nil => cases hi
  | cons j ms ih =>
    rw [Driver.visit_cons]
    by_cases hij : j = i
    · subst hij
      apply Driver.visit_keeps (P := fun s : PassState => s.endless = true)
        fun k _ _ hs => pass.prepare_keeps_endless k hs
      have hfresh' : Fresh j path { s with context := (pass.registerVisible path m s.context).2 } :=
        ⟨hfresh.discovered, hfresh.layouts, hfresh.caches⟩
      have hmark : (pass.scanner j path m).stalls = true := by
        simpa only [stalls, hfile] using hstalls
      have hdiscover := pass.discover_endless m hfresh'
      rw [hmark, Bool.or_true] at hdiscover
      simpa only [prepare, hfile] using hdiscover
    · exact ih (List.mem_of_ne_of_mem (Ne.symm hij) hi) (hfresh.prepare hpaths hfile hij)

theorem run_endless_of_stalls (hpaths : pass.DistinctPaths) (hstalls : pass.stalls i = true)
    {ms : List Nat} (hi : i ∈ ms) (config : Config) (cap : Int) :
    ((pass.capped cap).run ms (pass.start config)).state.endless = true := by
  obtain ⟨path, m, hfile⟩ | hnot := pass.holds_or_empty i
  · apply Driver.run_keeps_prepared (d := pass.capped cap) (P := fun s => s.endless = true)
      (fun j _ _ hs => pass.analyze_keeps_endless j hs)
      (fun _ _ s hs => (finish_endless s).trans hs)
    apply Driver.settle_of_visit (d := pass.capped cap) (P := fun s => s.endless = true)
      (fun _ => rfl) (fun j _ _ hs => pass.prepare_keeps_endless j hs)
    exact visit_prepare_endless hpaths hfile hstalls hi (pass.start_fresh config i path)
  · rw [stalls_of_empty hnot] at hstalls
    cases hstalls

end Pass

/-- The vectors among the types that a module looks up addresses in are of scalars and can be
aligned. -/
def IR.Module.Aligned (m : Module) : Prop :=
  ∃ T, (⟨.ofText m.dataLayout, m.typeDefs⟩ : Layout).Aligned T ∧ ∀ t ∈ m.laidOutTypes, T t

/-- Where all vectors can be aligned, every search of a scan has an end. -/
theorem Scanner.searches_of_aligned (sc : Scanner) {T : Ty → Prop} (hT : sc.layout.Aligned T)
    (htypes : ∀ t ∈ sc.module.laidOutTypes, T t) :
    sc.Searches fun memory => memory.endless = false := by
  intro f hf addr haddr memory hmemory
  obtain ⟨field, layouts, hrun, -⟩ := hT.measured.resolve
    (fun t ht => htypes t (Frame.addressTypes_laidOut hf haddr t ht)) memory.layouts
  simp only [resolve, frame, hrun, hmemory]

namespace Pass

variable {pass : Pass} {i : Nat} {s : PassState}

/-- All searches had an end so far, and every path has the data layout of its module. -/
structure Ending (pass : Pass) (s : PassState) : Prop where
  unmarked : s.endless = false
  layouts : ∀ i path m, pass.Holds i path m → ∀ data, s.layouts.get? path = some data →
    data = .ofText m.dataLayout

theorem start_ending (pass : Pass) (config : Config) : pass.Ending (pass.start config) :=
  ⟨rfl, fun _ _ _ _ _ hdata => by cases hdata⟩

theorem Ending.discover (hpaths : pass.DistinctPaths) {path : ByteString} {m : Module}
    (hfile : pass.Holds i path m) (haligned : m.Aligned) (h : pass.Ending s) :
    pass.Ending (pass.discover i path m s).2.2 := by
  by_cases hknown : path ∈ s.discovered
  · rw [pass.discover_of_known i m hknown]
    exact h
  · obtain ⟨context, discovered, -, hstate⟩ := pass.discover_state i m hknown
    have hdata : (s.layouts.get? path).getD (.ofText m.dataLayout) = .ofText m.dataLayout := by
      cases hget : s.layouts.get? path with
      | none => rfl
      | some data => exact h.layouts i path m hfile data hget
    obtain ⟨T, hT, htypes⟩ := haligned
    rw [hstate, hdata]
    constructor
    · have hscan := ((pass.scanner i path m).searches_of_aligned hT htypes).scan
        ⟨(s.caches.get? i).getD [], false⟩ rfl
      rw [h.unmarked, Bool.false_or]
      exact hscan
    · intro j path' m' hfile' data hget
      by_cases hpath : path = path'
      · subst hpath
        obtain rfl := hfile.module_eq hfile' hpaths
        obtain ⟨-, rfl⟩ := hfile.file_eq hfile'
        rw [Assoc.get?_put_self] at hget
        exact (Option.some.inj hget).symm
      · rw [Assoc.get?_put_of_ne hpath] at hget
        exact h.layouts j path' m' hfile' data hget

theorem Ending.prepare (hpaths : pass.DistinctPaths)
    (haligned : ∀ path m, pass.Holds i path m → m.Aligned) (h : pass.Ending s) :
    pass.Ending (pass.prepare i s).2 :=
  prepare_keeps (fun _ _ h => ⟨h.unmarked, h.layouts⟩)
    (fun path m hfile _ h => h.discover hpaths hfile (haligned path m hfile)) h

theorem Ending.analyze (hpaths : pass.DistinctPaths)
    (haligned : ∀ path m, pass.Holds i path m → m.Aligned) (h : pass.Ending s) :
    pass.Ending (pass.analyze i s).2 :=
  analyze_keeps (fun _ _ h => ⟨h.unmarked, h.layouts⟩)
    (fun path m hfile _ h => h.discover hpaths hfile (haligned path m hfile)) h

theorem Ending.finish (h : pass.Ending s) : pass.Ending (Pass.finish s).2 := by
  unfold Pass.finish
  split
  · exact h
  · exact ⟨h.unmarked, h.layouts⟩

theorem run_ends (hpaths : pass.DistinctPaths) {ms : List Nat}
    (haligned : ∀ i ∈ ms, ∀ path m, pass.Holds i path m → m.Aligned) (config : Config)
    (cap : Int) : ((pass.capped cap).run ms (pass.start config)).state.endless = false := by
  have hkeeps : (pass.capped cap).Keeps ms pass.Ending :=
    ⟨fun i hi _ hs => hs.prepare hpaths (haligned i hi),
      fun i hi _ hs => hs.analyze hpaths (haligned i hi), fun _ _ _ hs => hs.finish⟩
  exact (hkeeps.run (pass.start_ending config)).unmarked

/-! ### Runs -/

theorem signed_of_find? {p : Program}
    (h : (p.calls.find? fun c => decide c.Unsigned) = none) :
    ∀ i ∈ List.range p.length, (Pass.ofProgram p).Signed i := by
  intro i hi
  obtain ⟨file, hfile⟩ : ∃ file, p[i]? = some file :=
    ⟨_, List.getElem?_eq_getElem (List.mem_range.mp hi)⟩
  rw [Program.calls, List.find?_flatMap, List.findSome?_eq_none_iff] at h
  exact (signed_iff_find? hfile).mpr (h (file, i) (List.mk_mem_zipIdx_iff_getElem?.mpr hfile))

/-- A run fails in its first phase at the first module with a call that has no signature. -/
theorem run_of_unsigned_at (hpaths : pass.DistinctPaths) {before : List Nat} (after : List Nat)
    {file : ModuleFile} (hfile : pass.program[i]? = some file) {c : PlacedCall}
    (hc : ((file.calls i).find? fun c => decide c.Unsigned) = some c)
    (hsigned : ∀ j ∈ before, pass.Signed j) (config : Config) (cap : Int) :
    let out := (pass.capped cap).run (before ++ i :: after) (pass.start config)
    out.error = some (.failed 1 c.path c.complaint) ∧ out.report.finalRounds = 0 ∧
      out.state.finished = false := by
  have hprep : ∀ j ∈ before ++ i :: after, ∀ s, pass.Pending s → pass.Pending (pass.prepare j s).2 :=
    fun j _ s hs => hs.prepare j
  have hana : ∀ j ∈ before ++ i :: after, ∀ s, pass.Pending s → pass.Pending (pass.analyze j s).2 :=
    fun j _ s hs => hs.analyze j
  obtain ⟨herror, hrounds, hpending⟩ := Driver.run_failure (d := pass.capped cap) (fun _ => rfl)
    hprep hana (fun j hj s _ => analyze_of_signed (hsigned j hj) s)
    (fun s hs => analyze_of_unsigned hpaths hfile hc hs.honest) (pass.start_pending config)
  have hpath : (pass.capped cap).path i = c.path := by
    rw [ModuleFile.path_of_mem_calls (List.mem_of_find?_eq_some hc)]
    change pass.program.path i = file.path
    simp [Program.path, hfile]
  exact ⟨hpath ▸ herror, hrounds, hpending.unfinished⟩

/-- The first call of a program without a signature stands in the first module that has one. -/
theorem run_of_find? {p : Program} (hpaths : (p.map ModuleFile.path).Nodup) {c : PlacedCall}
    (hc : (p.calls.find? fun c => decide c.Unsigned) = some c) (config : Config) (cap : Int) :
    let pass := Pass.ofProgram p
    let out := (pass.capped cap).run (List.range p.length) (pass.start config)
    out.error = some (.failed 1 c.path c.complaint) ∧ out.report.finalRounds = 0 ∧
      out.state.finished = false := by
  rw [Program.calls, List.find?_flatMap] at hc
  obtain ⟨before, ⟨file, i⟩, after, hsplit, hc, hbefore⟩ := List.findSome?_eq_some_iff.mp hc
  have hplace : ∀ {x : ModuleFile × Nat}, x ∈ p.zipIdx → p[x.2]? = some x.1 :=
    fun hx => List.mk_mem_zipIdx_iff_getElem?.mp hx
  have hfile : p[i]? = some file :=
    hplace (hsplit ▸ List.mem_append_right _ List.mem_cons_self)
  have hsigned : ∀ j ∈ before.map Prod.snd, (Pass.ofProgram p).Signed j := by
    intro j hj
    obtain ⟨x, hx, rfl⟩ := List.mem_map.mp hj
    exact (signed_iff_find? (hplace (hsplit ▸ List.mem_append_left _ hx))).mpr (hbefore x hx)
  have hrange : List.range p.length = before.map Prod.snd ++ i :: after.map Prod.snd := by
    rw [p.range_eq, hsplit, List.map_append, List.map_cons]
  dsimp only
  rw [hrange]
  exact run_of_unsigned_at hpaths _ hfile hc hsigned config cap

end Pass

/-- An analysis that ends fails exactly if some indirect call has no signature. The failure is
reported in the first phase for the first such call of the program. Whether the analysis ends or
not, the last stage is not reached then. It does not end if the first scan of a module comes to a
search without an end, and it ends if all vectors of the modules can be aligned. -/
theorem analyze_fails_iff_unsigned {p : Program} (hne : p ≠ [])
    (hpaths : (p.map ModuleFile.path).Nodup) (options : AnalysisOptions) (fs : Files) :
    let pass := Pass.ofProgram p
    let out := (pass.driver options.config).run (List.range p.length) (pass.start options.config)
    (analyze options fs p ≠ .error .endless →
      ((∃ e, analyze options fs p = .error e) ↔ ∃ c ∈ p.calls, c.Unsigned)) ∧
    (∀ c, (p.calls.find? fun c => decide c.Unsigned) = some c →
      (analyze options fs p ≠ .error .endless →
        analyze options fs p = .error (.run (.failed 1 c.path c.complaint))) ∧
      out.report.finalRounds = 0 ∧ out.state.finished = false) ∧
    (∀ i < p.length, pass.stalls i = true → analyze options fs p = .error .endless) ∧
    ((∀ m ∈ p.contents, m.Aligned) → analyze options fs p ≠ .error .endless) := by
  intro pass out
  have hfound : ∀ c, (p.calls.find? fun c => decide c.Unsigned) = some c →
      out.error = some (.failed 1 c.path c.complaint) ∧ out.report.finalRounds = 0 ∧
        out.state.finished = false :=
    fun c hc => Pass.run_of_find? hpaths hc options.config options.config.phases
  have hcases := analyze_cases options fs hne
  refine ⟨fun hend => ⟨?_, ?_⟩, fun c hc => ⟨fun hend => ?_, (hfound c hc).2⟩, ?_, ?_⟩
  · rintro ⟨e, he⟩
    by_contra hnone
    have hfind : (p.calls.find? fun c => decide c.Unsigned) = none := by
      simpa using hnone
    have hok : out.error = none := (Pass.run_error_iff hpaths List.nodup_range options.config
      options.config.phases).mpr (Pass.signed_of_find? hfind)
    rcases hcases with ⟨-, heq⟩ | ⟨-, ⟨e', he', -⟩ | ⟨-, r, hr⟩⟩
    · exact hend heq
    · rw [hok] at he'
      cases he'
    · rw [hr] at he
      cases he
  · rintro ⟨c, hc, hunsigned⟩
    have hsome : (p.calls.find? fun c => decide c.Unsigned).isSome :=
      List.find?_isSome.mpr ⟨c, hc, by simpa using hunsigned⟩
    obtain ⟨first, hfirst⟩ := Option.isSome_iff_exists.mp hsome
    rcases hcases with ⟨-, heq⟩ | ⟨-, ⟨e, -, heq⟩ | ⟨hok, -⟩⟩
    · exact absurd heq hend
    · exact ⟨_, heq⟩
    · rw [(hfound first hfirst).1] at hok
      cases hok
  · rcases hcases with ⟨-, heq⟩ | ⟨-, ⟨e, he, heq⟩ | ⟨hok, -⟩⟩
    · exact absurd heq hend
    · rw [(hfound c hc).1] at he
      cases he
      exact heq
    · rw [(hfound c hc).1] at hok
      cases hok
  · intro i hi hstalls
    have hmark : out.state.endless = true := Pass.run_endless_of_stalls hpaths hstalls
      (List.mem_range.mpr hi) options.config options.config.phases
    rcases hcases with ⟨-, heq⟩ | ⟨hend, -⟩
    · exact heq
    · rw [hmark] at hend
      cases hend
  · intro haligned heq
    have hends : out.state.endless = false := by
      refine Pass.run_ends hpaths (fun i _ path m hfile => haligned m ?_) options.config
        options.config.phases
      exact List.mem_filterMap.mpr ⟨_, List.mem_of_getElem? hfile, rfl⟩
    rcases hcases with ⟨hmark, -⟩ | ⟨-, ⟨e, -, he⟩ | ⟨-, r, hr⟩⟩
    · rw [hends] at hmark
      cases hmark
    · rw [heq] at he
      cases he
    · rw [heq] at hr
      cases hr

/-! ### A program with untyped calls -/

namespace Untyped

def raw (name : String) : Func :=
  Table.func name .unspecified [.ptr 0 (.int 8)] [⟨.call ⟨some (.param 0), none, []⟩, .void, []⟩]

/-- A module in which the second and the third function cannot be understood. -/
def broken : Module := { Module.empty with
  funcs := [Table.func "fine" .unspecified [Table.hook]
    [⟨.call ⟨some (.param 0), some .void, []⟩, .void, []⟩], raw "second", raw "third"] }

def program : Program :=
  [⟨"user", some Table.user⟩, ⟨"broken", some broken⟩, ⟨"worse", some broken⟩]

theorem aligned : ∀ m ∈ program.contents, m.Aligned := by
  have huser : Table.user.Aligned := by
    refine ⟨fun t => t = .named "ops" ∨ t = Table.hook, ⟨?_, ?_⟩, ?_⟩
    · rintro t u (rfl | rfl) hu
      · change u ∈ [Table.hook, Table.hook] at hu
        simp_all
      · cases hu
    · rintro t scalable len e (rfl | rfl) hexp <;> cases hexp
    · change ∀ t ∈ [Ty.named "ops", Table.hook], _
      simp
  have hbroken : broken.Aligned := by
    refine ⟨fun _ => False, ⟨fun _ _ ht => ht.elim, fun _ _ _ _ ht => ht.elim⟩, ?_⟩
    change ∀ t ∈ ([] : List Ty), _
    simp
  change ∀ m ∈ [Table.user, broken, broken], _
  simp [huser, hbroken]

def heavy : Ty :=
  .struct (.literal 0) false [.vector false 1152921504606846977 (.float .single), Table.hook]

/-- A module that stores a function behind the vector and then calls what is no function. -/
def stalled : Module := { Module.empty with
  funcs := [Table.func "kept" .unspecified [] [],
    Table.func "store" .unspecified [.ptr 0 heavy, .ptr 0 (.int 8)] [
      ⟨.gep heavy (.param 0) [.const (.int (.int 32) 0), .const (.int (.int 32) 1)],
        .ptr 0 Table.hook, []⟩,
      ⟨.store (.const (.func 0)) (.inst 0 0), .void, []⟩,
      ⟨.call ⟨some (.param 1), none, []⟩, .void, []⟩]] }

end Untyped

open Untyped in
theorem analyze_fails_iff_unsigned_untyped :
    program ≠ [] ∧ (program.map ModuleFile.path).Nodup ∧
      analyze ⟨.standard, ""⟩ default program =
        .error (.run (.failed 1 "broken" ⟨none, "broken", "second"⟩)) ∧
      (∃ c ∈ Program.calls [⟨"stalled", some stalled⟩], c.Unsigned) ∧
      analyze ⟨.standard, ""⟩ default [⟨"stalled", some stalled⟩] = .error .endless := by
  have hne : program ≠ [] := by simp [program]
  have hpaths : (program.map ModuleFile.path).Nodup := by decide +kernel
  have hfirst : (program.calls.find? fun c => decide c.Unsigned).map
      (fun c => (RunError.failed 1 c.path c.complaint)) =
        some (.failed 1 "broken" ⟨none, "broken", "second"⟩) := by
    decide +kernel
  obtain ⟨c, hc, hcomplaint⟩ := Option.map_eq_some_iff.mp hfirst
  obtain ⟨-, hfails, -, hends⟩ := analyze_fails_iff_unsigned hne hpaths ⟨.standard, ""⟩ default
  have herror := (hfails c hc).1 (hends aligned)
  have hunsigned : ∃ c ∈ Program.calls [⟨"stalled", some stalled⟩], c.Unsigned := by
    have hsome : ((Program.calls [⟨"stalled", some stalled⟩]).find? fun c =>
        decide c.Unsigned).isSome = true := by decide +kernel
    simpa using List.find?_isSome.mp hsome
  obtain ⟨-, -, hstalls, -⟩ := analyze_fails_iff_unsigned (p := [⟨"stalled", some stalled⟩])
    (by simp) (by simp) ⟨.standard, ""⟩ default
  exact ⟨hne, hpaths, hcomplaint ▸ herror, hunsigned,
    hstalls 0 (by simp) (by decide +kernel)⟩

end CallTargets
