import CallTargets.Proofs.Matching.Outcome

/-!
# The targets of a call, declared

Which functions fit a call is said of a finished state, without regard to how it came about: by
signature, by what the calling module can reach where modules are told apart, and by the field the
callee was loaded from. The main statement is that after a successful analysis every call has
exactly the targets declared here, judged by the final state.
-/
namespace CallTargets

open IR

namespace Context

/-- A module can reach a function: it is not local, or belongs to the module, or its address went
where no type leads back, or a struct it was stored into is visible to the module, or an exported
global that holds it is known there. -/
def CanReach (c : Context) (module : ByteString) (fi : FuncInfo) : Prop :=
  fi.isLocal = false ∨ fi.module = module ∨ fi.escapesModule = true ∨
    (∃ owner ∈ fi.owners, c.visibleIn module owner = true) ∨
    ∃ g ∈ fi.published, c.references module g = true

/-- A function whose address is taken fits a call by its signature and, where modules are told
apart, can be reached from the module of the call. -/
def Fits (c : Context) (cs : CallSite) (fi : FuncInfo) : Prop :=
  fi ∈ c.addressTaken ∧ fi.sig = cs.sig ∧ (c.config.byModule = true → c.CanReach cs.module fi)

/-- A function that fits was stored into the field that the callee was loaded from, and fields are
told apart. -/
def FitsField (c : Context) (cs : CallSite) (fi : FuncInfo) : Prop :=
  c.Fits cs fi ∧ c.config.byField = true ∧ ∃ p, cs.provenance = some p ∧ p.disc ∈ fi.evidence

def Targets (cs : CallSite) (kind : FuncInfo → Prop) : Prop :=
  ∀ t, t ∈ cs.callees ↔ ∃ fi, kind fi ∧ fi.target = t

/-- A call has the targets that fit its field if there are any, and else all that fit. -/
structure Answers (c : Context) (cs : CallSite) : Prop where
  field : (∃ fi, c.FitsField cs fi) → cs.layer = .field ∧ Targets cs (c.FitsField cs)
  signature : (¬ ∃ fi, c.FitsField cs fi) → cs.layer = .signature ∧ Targets cs (c.Fits cs)

end Context

namespace Pass

theorem reachable_iff (c : Context) (module : ByteString) (fi : FuncInfo) :
    reachable c module fi = true ↔ c.CanReach module fi := by
  simp [reachable, Context.CanReach, or_assoc]

theorem mem_firstLayer {c : Context} (hc : c.Indexed) {cs : CallSite} {fi : FuncInfo} :
    fi ∈ firstLayer c cs ↔ c.Fits cs fi := by
  have hsig : fi ∈ c.funcsBySig cs.sig ↔ fi ∈ c.addressTaken ∧ fi.sig = cs.sig := by
    rw [hc.funcsBySig_eq, List.mem_filter, decide_eq_true_eq]
  unfold firstLayer Context.Fits
  cases c.config.byModule with
  | false => simp [hsig]
  | true => simp [hsig, reachable_iff, and_assoc]

/-- The candidates of a call that were stored into the field its callee was loaded from, if fields
are told apart. -/
def narrowed (c : Context) (cs : CallSite) : List FuncInfo :=
  match cs.provenance with
  | some p => if c.config.byField then secondLayer (firstLayer c cs) p.disc else []
  | none => []

theorem mem_narrowed {c : Context} (hc : c.Indexed) {cs : CallSite} {fi : FuncInfo} :
    fi ∈ narrowed c cs ↔ c.FitsField cs fi := by
  unfold narrowed Context.FitsField
  rw [← mem_firstLayer hc]
  cases hp : cs.provenance with
  | none => simp
  | some p =>
    cases c.config.byField with
    | false => simp
    | true => simp [secondLayer, FuncInfo.hasEvidence]

theorem candidates_eq (c : Context) (cs : CallSite) :
    candidates c cs =
      if narrowed c cs = [] then (.signature, firstLayer c cs) else (.field, narrowed c cs) := by
  unfold candidates narrowed
  cases cs.provenance with
  | none => rfl
  | some p =>
    cases c.config.byField with
    | false => rfl
    | true => cases hn : secondLayer (firstLayer c cs) p.disc <;> simp [hn]

theorem mem_callees_matched (c : Context) (cs : CallSite) (t : Target) :
    t ∈ (matched c cs).callees ↔ ∃ fi ∈ (candidates c cs).2, fi.target = t := by
  simp [matched, Target.normalize]

/-- Matching gives a call the targets that are declared for it. -/
theorem matched_answers {c : Context} (hc : c.Indexed) (cs : CallSite) :
    c.Answers (matched c cs) := by
  have hlayer : (matched c cs).layer = (candidates c cs).1 := rfl
  constructor
  · rintro ⟨fi, hfi⟩
    have hmem : fi ∈ narrowed c cs := (mem_narrowed hc).mpr hfi
    have hne : narrowed c cs ≠ [] := List.ne_nil_of_mem hmem
    refine ⟨by rw [hlayer, candidates_eq, if_neg hne], ?_⟩
    intro t
    rw [mem_callees_matched, candidates_eq, if_neg hne]
    exact exists_congr fun fi' => and_congr_left fun _ => mem_narrowed hc
  · intro hnone
    have hnil : narrowed c cs = [] := by
      apply List.eq_nil_iff_forall_not_mem.mpr
      intro fi hfi
      exact hnone ⟨fi, (mem_narrowed hc).mp hfi⟩
    refine ⟨by rw [hlayer, candidates_eq, if_pos hnil], ?_⟩
    intro t
    rw [mem_callees_matched, candidates_eq, if_pos hnil]
    exact exists_congr fun fi' => and_congr_left fun _ => mem_firstLayer hc

theorem Resolved.answers {pass : Pass} {config : Config} {ms : List Nat} {c : Context}
    (h : pass.Resolved config ms c) {id : CallId} {cs : CallSite} (hcs : c.site? id = some cs) :
    c.Answers cs := by
  rw [h.sites] at hcs
  obtain ⟨cs', -, rfl⟩ := Option.map_eq_some_iff.mp hcs
  obtain ⟨sites, stats, rfl⟩ := h.frame
  exact ⟨(matched_answers (pass.gathered_indexed config ms) cs').field,
    (matched_answers (pass.gathered_indexed config ms) cs').signature⟩

end Pass

/-! ### Analyses -/

/-- What a successful analysis ends with: the state of a run over the modules in their order, with
the number of phases. Its statistics and its calls are read from that state. -/
theorem analyze_ok {options : AnalysisOptions} {fs : Files} {p : Program} {r : AnalysisResult}
    (h : analyze options fs p = .ok r) :
    let pass := Pass.ofProgram p
    let out := (pass.driver options.config).run (List.range p.length) (pass.start options.config)
    p ≠ [] ∧ out.error = none ∧ r.report = out.report ∧
      r.context = { out.state.context with
        stats := out.state.context.stats.setPhases out.report.phases } ∧
      r.stats = r.context.stats ∧
      r.calls = readCalls p fs ⟨[], .ofRoot options.sourceRoot⟩ r.context.callSites := by
  unfold analyze at h
  split at h
  · cases h
  · next hne =>
    dsimp only at h ⊢
    split at h
    · cases h
    · split at h
      · cases h
      · next herror =>
        cases h
        exact ⟨by simpa using hne, herror, rfl, rfl, rfl, rfl⟩

/-- Whether an analysis does not end, fails or gives a result is read from the run. -/
theorem analyze_cases (options : AnalysisOptions) (fs : Files) {p : Program} (hne : p ≠ []) :
    let pass := Pass.ofProgram p
    let out := (pass.driver options.config).run (List.range p.length) (pass.start options.config)
    (out.state.endless = true ∧ analyze options fs p = .error .endless) ∨
      (out.state.endless = false ∧
        ((∃ e, out.error = some e ∧ analyze options fs p = .error (.run e)) ∨
          (out.error = none ∧ ∃ r, analyze options fs p = .ok r))) := by
  have hempty : p.isEmpty = false := by simpa using hne
  dsimp only
  cases hend : (((Pass.ofProgram p).driver options.config).run (List.range p.length)
      ((Pass.ofProgram p).start options.config)).state.endless with
  | true => simp [analyze, hempty, hend]
  | false =>
    cases herror : (((Pass.ofProgram p).driver options.config).run (List.range p.length)
        ((Pass.ofProgram p).start options.config)).error with
    | some e => simp [analyze, hempty, hend, herror]
    | none => simp [analyze, hempty, hend, herror]

theorem analyze_resolved {options : AnalysisOptions} {fs : Files} {p : Program}
    (hpaths : (p.map ModuleFile.path).Nodup) {r : AnalysisResult}
    (h : analyze options fs p = .ok r) :
    (Pass.ofProgram p).Resolved options.config (List.range p.length) r.context := by
  obtain ⟨-, hok, -, hcontext, -⟩ := analyze_ok h
  rw [Pass.driver_eq] at hok hcontext
  have hsigned := (Pass.run_error_iff hpaths List.nodup_range _ _).mp hok
  obtain ⟨-, hresolved, -⟩ := Pass.run_of_signed hpaths List.nodup_range hsigned options.config
    options.config.phases
  rw [hcontext]
  exact hresolved.withStats _

/-- After a successful analysis every indirect call has exactly the targets, and the layer, that
are declared for it by the final state. -/
theorem analyze_answers {options : AnalysisOptions} {fs : Files} {p : Program}
    (hpaths : (p.map ModuleFile.path).Nodup) {r : AnalysisResult}
    (h : analyze options fs p = .ok r) :
    r.context.config = options.config ∧ ∀ cs ∈ r.context.callSites, r.context.Answers cs := by
  have hresolved := analyze_resolved hpaths h
  refine ⟨?_, ?_⟩
  · obtain ⟨sites, stats, hframe⟩ := hresolved.frame
    rw [hframe]
    exact (Pass.ofProgram p).gathered_config options.config _
  · intro cs hcs
    exact hresolved.answers (hresolved.indexed.mem_callSites.mp hcs)

/-- The layers of the calls and the names of their targets, if the analysis succeeds. -/
def Program.targets (p : Program) (config : Config) : Option (List (Layer × List ByteString)) :=
  (analyze ⟨config, ""⟩ default p).toOption.map fun r =>
    r.context.callSites.map fun cs => (cs.layer, cs.callees.map Target.name)

theorem Program.targets_eq_some {p : Program} {config : Config}
    {found : List (Layer × List ByteString)} (h : p.targets config = some found) :
    ∃ r, analyze ⟨config, ""⟩ default p = .ok r ∧
      r.context.callSites.map (fun cs => (cs.layer, cs.callees.map Target.name)) = found := by
  unfold targets at h
  cases hr : analyze ⟨config, ""⟩ default p with
  | error e =>
    rw [hr] at h
    cases h
  | ok r =>
    rw [hr] at h
    cases h
    exact ⟨r, rfl, rfl⟩

/-! ### A program with a table of functions -/

namespace Table

def hook : Ty := .ptr 0 (.func .void [] false)

def defs : TypeDefs := [("ops", .struct (.named "ops") false [hook, hook])]

def func (name : String) (linkage : Linkage) (params : List Ty) (insts : List Inst) : Func where
  ident := .named name
  linkage := linkage
  space := 0
  ret := .void
  params := params
  variadic := false
  blocks := [⟨insts, .ret none⟩]
  attachments := []

/-- Calls the first function of a table, then a function it is given. -/
def user : Module := { Module.empty with
  typeDefs := defs
  funcs := [func "run" .unspecified [.ptr 0 (.named "ops"), hook] [
    ⟨.gep (.named "ops") (.param 0) [.const (.int (.int 32) 0), .const (.int (.int 32) 0)],
      .ptr 0 hook, []⟩,
    ⟨.load hook (.inst 0 0), hook, []⟩,
    ⟨.call ⟨some (.inst 0 1), some .void, []⟩, .void, []⟩,
    ⟨.call ⟨some (.param 1), some .void, []⟩, .void, []⟩]] }

/-- Keeps two functions in a table, one in an exported global and one in a global of its own. -/
def owner : Module := { Module.empty with
  typeDefs := defs
  globals := [
    ⟨.named "table", .internalOnly, 0, .named "ops",
      some (.struct (.named "ops") [.func 0, .func 1])⟩,
    ⟨.named "entry", .unspecified, 0, hook, some (.func 2)⟩,
    ⟨.named "hidden", .internalOnly, 0, hook, some (.func 3)⟩]
  funcs := [func "open" .internalOnly [] [], func "close" .internalOnly [] [],
    func "main" .unspecified [] [], func "unseen" .internalOnly [] []] }

def program : Program := [⟨"user", some user⟩, ⟨"owner", some owner⟩]

/-- The call through the table reaches its first function. The other call reaches all functions but
the one that no other module can get at. -/
def refined : List (Layer × List ByteString) :=
  [(.field, ["open"]), (.signature, ["close", "main", "open"])]

end Table

theorem analyze_answers_table :
    Table.program.targets .standard = some Table.refined ∧
      ∃ r, analyze ⟨.standard, ""⟩ default Table.program = .ok r ∧
        r.context.config = .standard ∧ ∀ cs ∈ r.context.callSites, r.context.Answers cs := by
  have htargets : Table.program.targets .standard = some Table.refined := by decide +kernel
  obtain ⟨r, hr, -⟩ := Program.targets_eq_some htargets
  exact ⟨htargets, r, hr, analyze_answers (by decide +kernel) hr⟩

end CallTargets
