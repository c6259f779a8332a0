import CallTargets.Proofs.Matching.Readback

/-!
# Programs in another order

Matching does not look at the numbers of functions and calls. So if the modules of a program are
given in another order, in which they tell the same, every call gets the same layer and targets of
the same names. The main statement says this of whole analyses. It asks that no external name has
two bodies, that the structs written in place borrow the same names, and that no two recorded fields
share a discriminator.
-/
namespace CallTargets

open IR

/-! ### Matching under other numbers -/

namespace Context

variable {σ : Nat → Nat} {c c' : Context} {cs : CallSite} {fi fi' : FuncInfo}

theorem Mirrors.canReach_iff (h : c.Mirrors σ c') (halike : (fi.moveBy σ).Alike fi')
    (module : ByteString) : c'.CanReach module fi' ↔ c.CanReach module fi := by
  have hmoved : c.CanReach module (fi.moveBy σ) ↔ c.CanReach module fi := .rfl
  rw [← hmoved]
  constructor
  · intro hreach
    exact hreach.of_alike halike.symm (fun sig => (h.visible module sig).symm)
      fun g => (h.references module g).symm
  · intro hreach
    exact hreach.of_alike halike (h.visible module) (h.references module)

theorem Mirrors.fits_iff (h : c.Mirrors σ c') (hconfig : c'.config = c.config)
    (hfi : fi ∈ c.addressTaken) (hfi' : fi' ∈ c'.addressTaken)
    (halike : (fi.moveBy σ).Alike fi') : c'.Fits cs fi' ↔ c.Fits cs fi := by
  have hsig : fi'.sig = fi.sig := halike.sig
  simp only [Fits, hfi, hfi', hsig, hconfig, h.canReach_iff halike]

theorem Mirrors.fitsField_iff (h : c.Mirrors σ c') (hconfig : c'.config = c.config)
    (hfi : fi ∈ c.addressTaken) (hfi' : fi' ∈ c'.addressTaken)
    (halike : (fi.moveBy σ).Alike fi') : c'.FitsField cs fi' ↔ c.FitsField cs fi := by
  have hevidence (d : Signature) : d ∈ fi'.evidence ↔ d ∈ fi.evidence := halike.evidence d
  simp only [FitsField, h.fits_iff hconfig hfi hfi' halike, hconfig, hevidence]

/-- Functions of a kind that goes over to their like have the same names in both states. -/
theorem Mirrors.exists_iff (h : c.Mirrors σ c') {β : Type} {name name' : Target → β}
    (hname : ∀ fi fi', fi ∈ c.addressTaken → (fi.moveBy σ).Alike fi' →
      name' fi'.target = name fi.target)
    {kind kind' : FuncInfo → Prop} (hkind : ∀ fi, kind fi → fi ∈ c.addressTaken)
    (hkind' : ∀ fi', kind' fi' → fi' ∈ c'.addressTaken)
    (hiff : ∀ fi fi', fi ∈ c.addressTaken → fi' ∈ c'.addressTaken → (fi.moveBy σ).Alike fi' →
      (kind' fi' ↔ kind fi)) (b : β) :
    (∃ fi', kind' fi' ∧ name' fi'.target = b) ↔ ∃ fi, kind fi ∧ name fi.target = b := by
  constructor
  · rintro ⟨fi', hfi', rfl⟩
    obtain ⟨fi, hfi, halike⟩ := h.back fi' (hkind' fi' hfi')
    exact ⟨fi, (hiff fi fi' hfi (hkind' fi' hfi') halike).mp hfi', (hname fi fi' hfi halike).symm⟩
  · rintro ⟨fi, hfi, rfl⟩
    obtain ⟨fi', hfi', halike⟩ := h.forth fi (hkind fi hfi)
    exact ⟨fi', (hiff fi fi' (hkind fi hfi) hfi' halike).mpr hfi,
      hname fi fi' (hkind fi hfi) halike⟩

end Context

namespace Pass

/-- States with the same functions under other numbers match a call alike, up to the numbers. -/
theorem matched_mirrors {σ : Nat → Nat} {c c' : Context} (h : c.Mirrors σ c') (hc : c.Indexed)
    (hc' : c'.Indexed) (hconfig : c'.config = c.config) {β : Type} (name name' : Target → β)
    (hname : ∀ fi fi', fi ∈ c.addressTaken → (fi.moveBy σ).Alike fi' →
      name' fi'.target = name fi.target)
    (cs : CallSite) (module : Nat) :
    (matched c' (cs.moveTo module)).layer = (matched c cs).layer ∧
      ∀ b, b ∈ (matched c' (cs.moveTo module)).callees.map name' ↔
        b ∈ (matched c cs).callees.map name := by
  refine Context.Answers.congr name name' (matched_answers hc cs)
    (matched_answers hc' (cs.moveTo module)) ?_ ?_
  · exact h.exists_iff hname (fun fi hfi => hfi.1) (fun fi' hfi' => hfi'.1)
      fun fi fi' hfi hfi' halike => h.fits_iff hconfig hfi hfi' halike
  · exact h.exists_iff hname (fun fi hfi => hfi.1.1) (fun fi' hfi' => hfi'.1.1)
      fun fi fi' hfi hfi' halike => h.fitsField_iff hconfig hfi hfi' halike

end Pass

/-! ### Answers -/

/-- Where a call stands: the path of its module, and the numbers of the function, the block and the
instruction. -/
structure CallPlace where
  path : ByteString
  func : Nat
  block : Nat
  inst : Nat
deriving DecidableEq, Repr

def CallSite.place (cs : CallSite) : CallPlace :=
  ⟨cs.module, cs.id.func, cs.id.block, cs.id.inst⟩

/-- What an analysis reports of each call: where it stands, its layer, and the names of its
targets. -/
def AnalysisResult.answers (r : AnalysisResult) : List (CallPlace × Layer × Finset ByteString) :=
  List.zipWith (fun cs c => (cs.place, c.layer, c.callees.toFinset)) r.context.callSites r.calls

def CallSite.answer (p : Program) (cs : CallSite) : CallPlace × Layer × Finset ByteString :=
  (cs.place, cs.layer, (cs.callees.map fun t => p.shown t.id).toFinset)

theorem Program.Reorders.shown_eq {p p' : Program} {σ : Nat → Nat} (h : p.Reorders p' σ)
    {id : FuncId} (hid : id.module < p.length) : p'.shown (id.moveBy σ) = p.shown id := by
  have hpath : p'.path (id.moveBy σ).module = p.path id.module := h.path_eq hid
  rw [shown, shown, h.symbol?_eq hid, hpath, Option.map_map]
  rfl

/-- An analysis succeeds exactly if there are modules, each of their indirect calls has a function
type, and all searches come to an end. -/
theorem exists_analyze_ok_iff {options : AnalysisOptions} {fs : Files} {p : Program}
    (hpaths : (p.map ModuleFile.path).Nodup) :
    (∃ r, analyze options fs p = .ok r) ↔
      p ≠ [] ∧ (∀ i ∈ List.range p.length, (Pass.ofProgram p).Signed i) ∧
        ∀ i ∈ List.range p.length, (Pass.ofProgram p).stalls i = false := by
  have hsigned : (((Pass.ofProgram p).driver options.config).run (List.range p.length)
      ((Pass.ofProgram p).start options.config)).error = none ↔
        ∀ i ∈ List.range p.length, (Pass.ofProgram p).Signed i :=
    Pass.run_error_iff hpaths List.nodup_range options.config options.config.phases
  have hends (hall : ∀ i ∈ List.range p.length, (Pass.ofProgram p).Signed i) :
      (((Pass.ofProgram p).driver options.config).run (List.range p.length)
        ((Pass.ofProgram p).start options.config)).state.endless = false ↔
          ∀ i ∈ List.range p.length, (Pass.ofProgram p).stalls i = false := by
    obtain ⟨-, -, -, hendless, -⟩ := Pass.run_of_signed hpaths List.nodup_range hall
      options.config options.config.phases
    rw [Pass.driver_eq, hendless, List.any_eq_false]
    simp only [Bool.not_eq_true]
  constructor
  · rintro ⟨r, hr⟩
    have hne := (analyze_ok hr).1
    have hall := hsigned.mp (analyze_ok hr).2.1
    rcases analyze_cases options fs hne with ⟨-, heq⟩ | ⟨hend, -⟩
    · rw [heq] at hr
      cases hr
    · exact ⟨hne, hall, (hends hall).mp hend⟩
  · rintro ⟨hne, hall, hstalls⟩
    rcases analyze_cases options fs hne with ⟨hend, -⟩ | ⟨-, ⟨e, he, -⟩ | ⟨-, hok⟩⟩
    · rw [(hends hall).mpr hstalls] at hend
      cases hend
    · rw [hsigned.mpr hall] at he
      cases he
    · exact hok

namespace Program

variable {options : AnalysisOptions} {fs : Files} {p : Program} {r : AnalysisResult}

/-- The calls of an analysis are those of the modules, matched. -/
theorem mem_callSites (hpaths : (p.map ModuleFile.path).Nodup) (h : analyze options fs p = .ok r)
    {cs : CallSite} :
    cs ∈ r.context.callSites ↔ ∃ i ∈ List.range p.length, ∃ call ∈ (Pass.ofProgram p).callsOf i,
      Pass.matched ((Pass.ofProgram p).gathered options.config (List.range p.length)) call = cs :=
  (analyze_resolved hpaths h).mem_callSites List.nodup_range
    ((exists_analyze_ok_iff hpaths).mp ⟨r, h⟩).2.1

theorem answers_eq (hpaths : (p.map ModuleFile.path).Nodup) (h : analyze options fs p = .ok r) :
    r.answers = r.context.callSites.map (CallSite.answer p) := by
  have hplaced : ∀ cs ∈ r.context.callSites, cs.Placed p := by
    intro cs hcs
    obtain ⟨i, -, call, hcall, rfl⟩ := (mem_callSites hpaths h).mp hcs
    exact Pass.matched_placed hcall
  obtain ⟨-, -, -, -, -, hcalls⟩ := analyze_ok h
  have hread := readCalls_eq fs (r := ⟨[], .ofRoot options.sourceRoot⟩) nofun hplaced
  rw [← hcalls] at hread
  let report (cs : CallSite) (reported : Layer × List ByteString) :
      CallPlace × Layer × Finset ByteString := (cs.place, reported.1, reported.2.toFinset)
  calc r.answers
      = List.zipWith report r.context.callSites (r.calls.map fun c => (c.layer, c.callees)) := by
        rw [List.zipWith_map_right]
        rfl
    _ = r.context.callSites.map (CallSite.answer p) := by
        rw [hread, List.zipWith_map_right, List.zipWith_self]
        rfl

theorem mem_answers (hpaths : (p.map ModuleFile.path).Nodup) (h : analyze options fs p = .ok r)
    {answer : CallPlace × Layer × Finset ByteString} :
    answer ∈ r.answers ↔ ∃ i ∈ List.range p.length, ∃ call ∈ (Pass.ofProgram p).callsOf i,
      (Pass.matched ((Pass.ofProgram p).gathered options.config (List.range p.length)) call).answer
        p = answer := by
  rw [answers_eq hpaths h, List.mem_map]
  simp only [mem_callSites hpaths h]
  constructor
  · rintro ⟨cs, ⟨i, hi, call, hcall, rfl⟩, rfl⟩
    exact ⟨i, hi, call, hcall, rfl⟩
  · rintro ⟨i, hi, call, hcall, rfl⟩
    exact ⟨_, ⟨i, hi, call, hcall, rfl⟩, rfl⟩

theorem places_nodup (hpaths : (p.map ModuleFile.path).Nodup) (h : analyze options fs p = .ok r) :
    (r.answers.map Prod.fst).Nodup := by
  have hids := (analyze_resolved hpaths h).indexed.callSites_nodup
  have hhosts : ∀ cs ∈ r.context.callSites, (Pass.ofProgram p).Hosts cs.id.module cs.module := by
    intro cs hcs
    obtain ⟨i, hi, call, hcall, rfl⟩ := (mem_callSites hpaths h).mp hcs
    obtain ⟨hid, hhosts⟩ := Pass.callsOf_place hcall
    exact hid ▸ hhosts
  rw [answers_eq hpaths h, List.map_map]
  refine List.Nodup.map_on ?_ (.of_map _ hids)
  intro cs hcs cs' hcs' hplace
  obtain ⟨hpath, hfunc, hblock, hinst⟩ := CallPlace.mk.inj hplace
  obtain ⟨m, hfile⟩ := hhosts cs hcs
  obtain ⟨m', hfile'⟩ := hhosts cs' hcs'
  have hmodule : cs.id.module = cs'.id.module := (hpath ▸ hfile).module_eq hfile' hpaths
  have hid : cs.id = cs'.id := by
    rw [CallId.mk.injEq]
    exact ⟨hmodule, hfunc, hblock, hinst⟩
  exact List.inj_on_of_nodup_map hids hcs hcs' hid

end Program

theorem Pass.Moves.answer_eq {pass pass' : Pass} {σ : Nat → Nat} (h : pass.Moves pass' σ)
    (hinj : Set.InjOn FuncInfo.disc pass.storedFields) (config : Config) (module : Nat)
    (cs : CallSite) :
    (matched (pass'.gathered config (List.range pass'.program.length))
        (cs.moveTo module)).answer pass'.program =
      (matched (pass.gathered config (List.range pass.program.length)) cs).answer
        pass.program := by
  have hname : ∀ fi fi', fi ∈ (pass.gathered config (List.range
      pass.program.length)).addressTaken → (fi.moveBy σ).Alike fi' →
        pass'.program.shown fi'.target.id = pass.program.shown fi.target.id := by
    intro fi fi' hfi halike
    have hid : fi'.target.id = fi.id.moveBy σ := halike.id
    obtain ⟨s, hs⟩ :=
      symbol?_of_gathered ((pass.gathered_indexed config _).mem_addressTaken.mp hfi)
    rw [hid]
    exact h.reorders.shown_eq (Program.lt_of_symbol? hs)
  obtain ⟨hlayer, hcallees⟩ := matched_mirrors (h.gathered_mirrors hinj config)
    (pass.gathered_indexed config _) (pass'.gathered_indexed config _) (by simp)
    (fun t => pass.program.shown t.id) (fun t => pass'.program.shown t.id) hname cs module
  refine Prod.ext rfl (Prod.ext hlayer ?_)
  ext name
  rw [CallSite.answer, CallSite.answer, List.mem_toFinset, List.mem_toFinset, hcallees]

/-- The order of the modules has no influence on whether an analysis succeeds, nor on the layer of
any call and the names of its targets. -/
theorem analyze_permuted {p p' : Program} (hperm : p.Perm p')
    (hpaths : (p.map ModuleFile.path).Nodup) (hone : p.OneBody)
    (hnames : ∀ m ∈ p.contents, ∀ shape ∈ m.shapesInPlace,
      (StructNames.ofModules p'.contents).lookup shape =
        (StructNames.ofModules p.contents).lookup shape)
    (hinj : Set.InjOn FuncInfo.disc (Pass.ofProgram p).storedFields)
    (options : AnalysisOptions) (fs : Files) :
    ((∃ r, analyze options fs p = .ok r) ↔ ∃ r, analyze options fs p' = .ok r) ∧
      ∀ r r', analyze options fs p = .ok r → analyze options fs p' = .ok r' →
        (r.answers.map Prod.fst).Nodup ∧ r.answers.Perm r'.answers := by
  have hpaths' : (p'.map ModuleFile.path).Nodup := (hperm.map _).nodup_iff.mp hpaths
  obtain ⟨σ, hreorders⟩ := Program.exists_reorders hperm hpaths
  have hmoves : (Pass.ofProgram p).Moves (Pass.ofProgram p') σ := ⟨hreorders, hone, hnames⟩
  constructor
  · have hempty : p ≠ [] ↔ p' ≠ [] := not_congr
      ⟨fun hnil => List.nil_perm.mp (hnil ▸ hperm), fun hnil => List.perm_nil.mp (hnil ▸ hperm)⟩
    rw [exists_analyze_ok_iff hpaths, exists_analyze_ok_iff hpaths', hempty]
    exact and_congr_right fun _ => and_congr hmoves.signed_all_iff.symm hmoves.stalls_all_iff.symm
  · intro r r' hr hr'
    have hnodup := Program.places_nodup hpaths hr
    have hnodup' := Program.places_nodup hpaths' hr'
    refine ⟨hnodup, (List.perm_ext_iff_of_nodup (.of_map _ hnodup) (.of_map _ hnodup')).mpr ?_⟩
    intro answer
    rw [Program.mem_answers hpaths hr, Program.mem_answers hpaths' hr']
    refine (hmoves.exists_iff fun i hi => ?_).symm
    rw [hmoves.callsOf_eq hi]
    simp only [List.mem_map, exists_exists_and_eq_and]
    exact exists_congr fun cs => and_congr_right fun _ =>
      Iff.of_eq (congrArg (· = answer) (hmoves.answer_eq hinj options.config (σ i) cs))

/-! ### A table written in place -/

namespace Table

def inPlace : Ty := .struct (.literal 0) false [hook, hook]

def copier : Module := { Module.empty with
  globals := [⟨.named "copy", .unspecified, 0, inPlace, some (.struct inPlace [.func 0, .func 0])⟩]
  funcs := [func "spare" .unspecified [] []] }

def extended : Program := program ++ [⟨"copier", some copier⟩]

def reported : List (CallPlace × Layer × Finset ByteString) :=
  let table : List ByteString := ["owner:open", "spare"]
  let all : List ByteString := ["owner:close", "main", "owner:open", "spare"]
  [(⟨"user", 0, 0, 2⟩, .field, table.toFinset), (⟨"user", 0, 0, 3⟩, .signature, all.toFinset)]

theorem extended_disc_injOn :
    Set.InjOn FuncInfo.disc (Pass.ofProgram extended).storedFields := by
  have hfields : ∀ a ∈ (Pass.ofProgram extended).scannedFields,
      ∀ b ∈ (Pass.ofProgram extended).scannedFields,
        FuncInfo.disc a = FuncInfo.disc b → a = b := by
    decide +kernel
  intro a ha b hb hab
  exact hfields a (Pass.mem_scannedFields ha) b (Pass.mem_scannedFields hb) hab

end Table

theorem analyze_permuted_copier :
    ∃ r r', analyze ⟨.standard, ""⟩ default Table.extended = .ok r ∧
      analyze ⟨.standard, ""⟩ default Table.extended.reverse = .ok r' ∧
      r.answers = Table.reported ∧ (r.answers.map Prod.fst).Nodup ∧ r.answers.Perm r'.answers := by
  have hreported : (analyze ⟨.standard, ""⟩ default Table.extended).toOption.map
      AnalysisResult.answers = some Table.reported := by decide +kernel
  obtain ⟨hiff, hanswers⟩ := analyze_permuted (List.reverse_perm Table.extended).symm
    (by decide +kernel) (by decide +kernel) (by decide +kernel) Table.extended_disc_injOn
    ⟨.standard, ""⟩ default
  cases hr : analyze ⟨.standard, ""⟩ default Table.extended with
  | error e =>
    rw [hr] at hreported
    cases hreported
  | ok r =>
    obtain ⟨r', hr'⟩ := hiff.mp ⟨r, hr⟩
    rw [hr] at hreported
    exact ⟨r, r', rfl, hr', Option.some.inj hreported, hanswers r r' hr hr'⟩

end CallTargets
