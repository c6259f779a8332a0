import CallTargets.Proofs.Matching.External
import CallTargets.Proofs.Matching.Readback

/-!
# Positions of targets

A call is reported with the positions at which its targets are declared, by the names under which
the targets are shown. The targets are read back in order and a later one overwrites what an earlier
one of the same name has left, so a name leads to the last position under it. The main statement is
that the targets of a call are shown with their own positions exactly if no two of them with
different positions share a name, after every analysis that succeeds.

Two targets of one name are two strong bodies, or two declarations of a function that no module
defines, unless a local function is shown under the name of another one.
-/
namespace CallTargets

open IR

namespace Program

def declaredAt? (p : Program) (id : FuncId) : Option Location :=
  (p.func? id).bind Location.ofFunc?

def positionsUnder (p : Program) (name : ByteString) (ids : List FuncId) : List Location :=
  ids.filterMap fun id => if p.shown id = name then p.declaredAt? id else none

/-- No local function is shown under the name of another function. -/
def LocalsApart (p : Program) : Prop :=
  ∀ s ∈ p.symbols, ∀ t ∈ p.symbols, s.isLocal → p.shown s.id = p.shown t.id → s = t

instance (p : Program) : Decidable p.LocalsApart :=
  inferInstanceAs (Decidable (∀ s ∈ p.symbols, ∀ t ∈ p.symbols, s.isLocal →
    p.shown s.id = p.shown t.id → s = t))

variable {p : Program}

theorem mem_positionsUnder {name : ByteString} {ids : List FuncId} {l : Location} :
    l ∈ p.positionsUnder name ids ↔
      ∃ id ∈ ids, p.shown id = name ∧ p.declaredAt? id = some l := by
  simp [positionsUnder]

theorem positionsUnder_cons (name : ByteString) (id : FuncId) (ids : List FuncId) :
    p.positionsUnder name (id :: ids) =
      p.positionsUnder name [id] ++ p.positionsUnder name ids := by
  rw [positionsUnder, ← List.singleton_append, List.filterMap_append]
  rfl

/-- A function that other modules know is shown under its own name. -/
theorem shown_of_external {s : Symbol} (hs : s ∈ p.symbols) (h : s.isLocal = false) :
    p.shown s.id = s.name := by
  simp [shown, mem_symbols_iff.mp hs, Symbol.displayName, h]

end Program

/-! ### Reading back -/

/-- A call is reported with the names of its targets, and each name with the last position that a
target of this name has. -/
structure CallResult.Reports (p : Program) (cs : CallSite) (c : CallResult) : Prop where
  callees : c.callees = (cs.callees.map Target.id).map p.shown
  definitions : ∀ name, c.definitions.get? name =
    (p.positionsUnder name (cs.callees.map Target.id)).getLast?

section

variable {p : Program} {r : Readback}

theorem addTarget_definitions (hr : r.Truthful p) (c : CallResult) {t : Target}
    (ht : t.module = p.path t.id.module) (name : ByteString) :
    (c.addTarget p r t).2.definitions.get? name =
      (p.positionsUnder name [t.id]).getLast?.or (c.definitions.get? name) := by
  obtain ⟨hname, -⟩ := Readback.nameOf_eq hr ht
  cases hl : (p.func? t.id).bind Location.ofFunc? with
  | none => simp [CallResult.addTarget, Program.positionsUnder, Program.declaredAt?, hl]
  | some l =>
    by_cases hshown : p.shown t.id = name <;>
      simp [CallResult.addTarget, Program.positionsUnder, Program.declaredAt?, hname, hl, hshown]

/-- Positions under a name are overwritten as often as a target of the name has one. -/
theorem addTargets_definitions {ts : List Target} (hts : ∀ t ∈ ts, t.module = p.path t.id.module)
    (hr : r.Truthful p) (c : CallResult) (name : ByteString) :
    (ts.foldl (fun x t => CallResult.addTarget p x.1 x.2 t) (r, c)).2.definitions.get? name =
      (p.positionsUnder name (ts.map Target.id)).getLast?.or (c.definitions.get? name) := by
  induction ts generalizing r c with
  | nil => rfl
  | cons t ts ih =>
    obtain ⟨ht, hrest⟩ := List.forall_mem_cons.mp hts
    rw [List.foldl_cons, ih hrest (addTarget_eq hr c ht).1, addTarget_definitions hr c ht,
      List.map_cons, Program.positionsUnder_cons name t.id (ts.map Target.id),
      List.getLast?_append, Option.or_assoc]

theorem readCall_reports (fs : Files) (hr : r.Truthful p) {cs : CallSite} (hcs : cs.Placed p) :
    (readCall p fs r cs).2.Reports p cs := by
  refine ⟨by rw [(readCall_eq fs hr hcs).2.2, List.map_map]; rfl, fun name => ?_⟩
  obtain ⟨r', c, hread, hr', -, -, hempty⟩ := readCall_start fs hr hcs.caller
  rw [hread, addTargets_definitions hcs.targets hr' c name, hempty]
  exact Option.or_none

theorem readCalls_reports (fs : Files) (hr : r.Truthful p) {calls : List CallSite}
    (hcalls : ∀ cs ∈ calls, cs.Placed p) :
    List.Forall₂ (fun cs c => CallResult.Reports p cs c) calls (readCalls p fs r calls) := by
  induction calls generalizing r with
  | nil => exact .nil
  | cons cs calls ih =>
    obtain ⟨hcs, hrest⟩ := List.forall_mem_cons.mp hcalls
    exact .cons (readCall_reports fs hr hcs) (ih (readCall_eq fs hr hcs).1 hrest)

end

/-! ### Targets that share a name -/

/-- No two targets of a call with different positions are shown under one name. -/
def CallSite.PositionsApart (p : Program) (cs : CallSite) : Prop :=
  ∀ t ∈ cs.callees, ∀ u ∈ cs.callees, p.shown t.id = p.shown u.id →
    ∀ l l', p.declaredAt? t.id = some l → p.declaredAt? u.id = some l' → l = l'

def CallResult.ShowsOwn (p : Program) (cs : CallSite) (c : CallResult) : Prop :=
  ∀ t ∈ cs.callees, ∀ l, p.declaredAt? t.id = some l → c.definitions.get? (p.shown t.id) = some l

namespace CallResult.Reports

variable {p : Program} {cs : CallSite} {c : CallResult}

/-- What is shown for a target with a position is that of a target of the same name. -/
theorem exists_shown (h : c.Reports p cs) {t : Target} (ht : t ∈ cs.callees) {l : Location}
    (hl : p.declaredAt? t.id = some l) :
    ∃ u ∈ cs.callees, p.shown u.id = p.shown t.id ∧ ∃ l', p.declaredAt? u.id = some l' ∧
      c.definitions.get? (p.shown t.id) = some l' := by
  have hmem : l ∈ p.positionsUnder (p.shown t.id) (cs.callees.map Target.id) :=
    Program.mem_positionsUnder.mpr ⟨t.id, List.mem_map_of_mem ht, rfl, hl⟩
  have hlast := List.getLast?_eq_some_getLast (List.ne_nil_of_mem hmem)
  obtain ⟨id, hid, hname, hposition⟩ :=
    Program.mem_positionsUnder.mp (List.getLast_mem (List.ne_nil_of_mem hmem))
  obtain ⟨u, hu, rfl⟩ := List.mem_map.mp hid
  exact ⟨u, hu, hname, _, hposition, by rw [h.definitions, hlast]⟩

theorem showsOwn_iff (h : c.Reports p cs) : c.ShowsOwn p cs ↔ cs.PositionsApart p := by
  constructor
  · intro hown t ht u hu hname l l' hl hl'
    have hshown := hown t ht l hl
    rw [hname, hown u hu l' hl'] at hshown
    exact (Option.some.inj hshown).symm
  · intro hapart t ht l hl
    obtain ⟨u, hu, hname, l', hl', hshown⟩ := h.exists_shown ht hl
    rw [hshown, hapart t ht u hu hname.symm l l' hl hl']

end CallResult.Reports

namespace Pass.Registered

variable {p : Program} {c : Context}

theorem placed (h : (Pass.ofProgram p).Registered c) {cs : CallSite} (hcs : cs ∈ c.callSites) :
    cs.Placed p := by
  have hsite := h.indexed.mem_callSites.mp hcs
  refine ⟨h.caller cs.id cs hsite, fun t ht => ?_⟩
  obtain ⟨fi, hfi, rfl⟩ := h.target cs.id cs hsite t ht
  exact h.module_eq (h.indexed.mem_addressTaken.mpr hfi)

/-- If no name has two strong bodies and no local function is shown as another one, only targets
whose name has no body share a name. -/
theorem eq_of_shown (h : (Pass.ofProgram p).Registered c) (hone : p.OneStrong)
    (hlocals : p.LocalsApart) {cs : CallSite} (hcs : cs ∈ c.callSites) {t u : Target}
    (ht : t ∈ cs.callees) (hu : u ∈ cs.callees) (hdef : t.isExternal p → p.Defines t.name)
    (hshown : p.shown t.id = p.shown u.id) : t.id = u.id := by
  have hsite := h.indexed.mem_callSites.mp hcs
  obtain ⟨fi, hfi, rfl⟩ := h.target cs.id cs hsite t ht
  obtain ⟨fi', hfi', rfl⟩ := h.target cs.id cs hsite u hu
  have hmem : fi ∈ c.addressTaken := h.indexed.mem_addressTaken.mpr hfi
  have hmem' : fi' ∈ c.addressTaken := h.indexed.mem_addressTaken.mpr hfi'
  obtain ⟨_, _, s, hs, hid, hname, hlocal⟩ := h.symbol hmem
  obtain ⟨_, _, s', hs', hid', hname', hlocal'⟩ := h.symbol hmem'
  have hsmem : s ∈ p.symbols := Program.mem_symbols_iff.mpr (home?_symbol hs)
  have hsmem' : s' ∈ p.symbols := Program.mem_symbols_iff.mpr (home?_symbol hs')
  change p.shown fi.id = p.shown fi'.id at hshown
  rw [← hid, ← hid'] at hshown
  change fi.id = fi'.id
  cases hl : s.isLocal with
  | true => rw [← hid, ← hid', hlocals s hsmem s' hsmem' hl hshown]
  | false =>
    cases hl' : s'.isLocal with
    | true => rw [← hid, ← hid', hlocals s' hsmem' s hsmem hl' hshown.symm]
    | false =>
      -- Both are known to other modules, under one name.
      rw [Program.shown_of_external hsmem hl, Program.shown_of_external hsmem' hl', hname,
        hname'] at hshown
      rw [hl] at hlocal
      rw [hl'] at hlocal'
      have hext : fi.target.isExternal p = true := by rw [h.isExternal_target hmem, ← hlocal]; rfl
      rw [h.eq_of_external hone hmem hmem' hlocal.symm hlocal'.symm hshown (hdef hext)]

end Pass.Registered

theorem analyze_registered {options : AnalysisOptions} {fs : Files} {p : Program}
    {r : AnalysisResult} (h : analyze options fs p = .ok r) :
    (Pass.ofProgram p).Registered r.context := by
  obtain ⟨-, -, -, hcontext, -⟩ := analyze_ok h
  have hrun := Pass.run_registered (d := (Pass.ofProgram p).driver options.config) rfl
    (List.range p.length) options.config
  rw [hcontext]
  exact ⟨hrun.linked, (Context.Step.stats _ _).indexed hrun.indexed, hrun.same, hrun.home,
    hrun.caller, hrun.nodup, hrun.target⟩

/-- After a success every name in the report of a call leads to the last position under it. The
targets of a call are shown with their own positions exactly if no two of them with different
positions share a name. If no external name has two strong bodies and no local function is shown as
another one, every target is shown with its own position that is local or whose name has a body. -/
theorem positions_shown_iff_apart {options : AnalysisOptions} {fs : Files} {p : Program}
    {r : AnalysisResult} (h : analyze options fs p = .ok r) :
    List.Forall₂ (fun cs c => CallResult.Reports p cs c ∧
      (c.ShowsOwn p cs ↔ cs.PositionsApart p) ∧
      (p.OneStrong → p.LocalsApart → ∀ t ∈ cs.callees, (t.isExternal p → p.Defines t.name) →
        ∀ l, p.declaredAt? t.id = some l → c.definitions.get? (p.shown t.id) = some l))
      r.context.callSites r.calls := by
  have hregistered := analyze_registered h
  obtain ⟨-, -, -, -, -, hcalls⟩ := analyze_ok h
  have hreports := readCalls_reports (r := ⟨[], .ofRoot options.sourceRoot⟩) fs
    (fun id name hname => by cases hname) fun cs hcs => hregistered.placed hcs
  rw [hcalls]
  have hmem := List.forall₂_iff_get.mp hreports
  refine List.forall₂_iff_get.mpr ⟨hmem.1, fun i hi hi' => ?_⟩
  have hcall := hmem.2 i hi hi'
  refine ⟨hcall, hcall.showsOwn_iff, fun hone hlocals t ht hdef l hl => ?_⟩
  obtain ⟨u, hu, hname, l', hl', hshown⟩ := hcall.exists_shown ht hl
  have hid := hregistered.eq_of_shown hone hlocals (List.get_mem _ ⟨i, hi⟩) ht hu hdef hname.symm
  rw [← hid, hl] at hl'
  rw [hshown, Option.some.inj hl']

/-! ### Two functions of one name -/

namespace Twins

def stop (linkage : Linkage) (line : Int) : Func :=
  { Table.func "stop" linkage [] [] with
    attachments := [⟨"dbg", .subprogram (some "stop.c") line⟩] }

def exported (name : String) (init : Option Const) : Global :=
  ⟨.named name, .unspecified, 0, Table.hook, init⟩

/-- Two modules with a function `stop` each, one of which calls what it is given. -/
def program (linkage : Linkage) : Program := [
  ⟨"left", some { Module.empty with
    globals := [exported "first" (some (.func 0)), exported "second" none]
    funcs := [stop linkage 3, Table.func "run" .unspecified [Table.hook]
      [⟨.call ⟨some (.param 0), some .void, []⟩, .void, []⟩]] }⟩,
  ⟨"right", some { Module.empty with
    globals := [exported "second" (some (.func 0))]
    funcs := [stop linkage 8] }⟩]

/-- The targets of the calls, if the analysis succeeds. -/
def targets (linkage : Linkage) : Option (List (List FuncId)) :=
  (analyze ⟨.standard, ""⟩ default (program linkage)).toOption.map fun r =>
    r.context.callSites.map fun cs => cs.callees.map Target.id

theorem exists_call (linkage : Linkage) (h : targets linkage = some [[⟨0, 0⟩, ⟨1, 0⟩]]) :
    ∃ r cs, analyze ⟨.standard, ""⟩ default (program linkage) = .ok r ∧
      r.context.callSites = [cs] ∧ cs.callees.map Target.id = [⟨0, 0⟩, ⟨1, 0⟩] := by
  unfold targets at h
  cases hr : analyze ⟨.standard, ""⟩ default (program linkage) with
  | error e =>
    rw [hr] at h
    cases h
  | ok r =>
    rw [hr] at h
    obtain ⟨cs, hcs, hids⟩ := List.map_eq_singleton_iff.mp (Option.some.inj h)
    exact ⟨r, cs, rfl, hcs, hids⟩

variable {cs : CallSite}

/-- Two strong functions are shown under one name, with positions of their own. -/
theorem not_positionsApart (hids : cs.callees.map Target.id = [⟨0, 0⟩, ⟨1, 0⟩]) :
    ¬ cs.PositionsApart (program .unspecified) := by
  intro hapart
  have hleft : ⟨0, 0⟩ ∈ cs.callees.map Target.id := by simp [hids]
  have hright : ⟨1, 0⟩ ∈ cs.callees.map Target.id := by simp [hids]
  obtain ⟨t, ht, htid⟩ := List.mem_map.mp hleft
  obtain ⟨u, hu, huid⟩ := List.mem_map.mp hright
  have hsame := hapart t ht u hu (by rw [htid, huid]; decide +kernel) ⟨"stop.c", 3⟩
    ⟨"stop.c", 8⟩ (by rw [htid]; decide +kernel) (by rw [huid]; decide +kernel)
  exact absurd hsame (by decide)

theorem isExternal_eq_false (hids : cs.callees.map Target.id = [⟨0, 0⟩, ⟨1, 0⟩]) {t : Target}
    (ht : t ∈ cs.callees) : t.isExternal (program .internalOnly) = false := by
  have hid : t.id ∈ cs.callees.map Target.id := List.mem_map_of_mem ht
  have hlocal : ∀ id ∈ [(⟨0, 0⟩ : FuncId), ⟨1, 0⟩],
      (((program .internalOnly).symbol? id).any fun s => !s.isLocal) = false := by decide +kernel
  rw [hids] at hid
  exact hlocal t.id hid

end Twins

/-- Two strong functions of one name hide each other, two static ones do not. -/
theorem positions_shown_iff_apart_twins :
    (∃ r cs c, analyze ⟨.standard, ""⟩ default (Twins.program .unspecified) = .ok r ∧
      r.context.callSites = [cs] ∧ r.calls = [c] ∧ c.callees = ["stop", "stop"] ∧
      ¬ c.ShowsOwn (Twins.program .unspecified) cs) ∧
    (Twins.program .internalOnly).OneStrong ∧ (Twins.program .internalOnly).LocalsApart ∧
    ∃ r cs c, analyze ⟨.standard, ""⟩ default (Twins.program .internalOnly) = .ok r ∧
      r.context.callSites = [cs] ∧ r.calls = [c] ∧ c.callees = ["left:stop", "right:stop"] ∧
      c.ShowsOwn (Twins.program .internalOnly) cs := by
  have hone : (Twins.program .internalOnly).OneStrong := by decide +kernel
  have hlocals : (Twins.program .internalOnly).LocalsApart := by decide +kernel
  refine ⟨?_, hone, hlocals, ?_⟩
  · obtain ⟨r, cs, hr, hcs, hids⟩ := Twins.exists_call .unspecified (by decide +kernel)
    have hcalls := positions_shown_iff_apart hr
    rw [hcs] at hcalls
    obtain ⟨c, _, ⟨hreports, hiff, -⟩, hnil, hc⟩ := List.forall₂_cons_left_iff.mp hcalls
    rw [List.forall₂_nil_left_iff.mp hnil] at hc
    refine ⟨r, cs, c, hr, hcs, hc, by rw [hreports.callees, hids]; decide +kernel, ?_⟩
    exact hiff.not.mpr (Twins.not_positionsApart hids)
  · obtain ⟨r, cs, hr, hcs, hids⟩ := Twins.exists_call .internalOnly (by decide +kernel)
    have hcalls := positions_shown_iff_apart hr
    rw [hcs] at hcalls
    obtain ⟨c, _, ⟨hreports, -, hown⟩, hnil, hc⟩ := List.forall₂_cons_left_iff.mp hcalls
    rw [List.forall₂_nil_left_iff.mp hnil] at hc
    refine ⟨r, cs, c, hr, hcs, hc, by rw [hreports.callees, hids]; decide +kernel, ?_⟩
    intro t ht
    refine hown hone hlocals t ht fun hext => ?_
    rw [Twins.isExternal_eq_false hids ht] at hext
    cases hext

end CallTargets
