import CallTargets.Proofs.Layout.Owners
import CallTargets.Proofs.Matching.Order

/-!
# What the settings change

Preparation does not look at the settings, so analyses of one program with different settings
gather the same, and only the candidates of the calls differ. Telling fields apart narrows the
targets of a call and never leaves it without any. Telling modules apart removes targets, except
where it removes all functions that were stored into the field of a call: then the call falls back
to the functions of its signature, none of which was a target before.
-/
namespace CallTargets

open IR

/-- Without fields, both calls reach all functions but the one that is kept to its module. -/
def Table.coarse : List (Layer × List ByteString) :=
  [(.signature, ["close", "main", "open"]), (.signature, ["close", "main", "open"])]

/-- One record of a call narrows another: its targets are among those of the other, it lacks
targets only if the other does, and it has the same targets unless they come from a field. -/
structure CallSite.Narrows (cs cs' : CallSite) : Prop where
  subset : cs.callees ⊆ cs'.callees
  empty_iff : cs.callees = [] ↔ cs'.callees = []
  signature : cs.layer = .signature → ∀ t, t ∈ cs.callees ↔ t ∈ cs'.callees

namespace Context

/-- Functions of the signature of a call were stored into its field, but none of them can be
reached from its module, while other functions of the signature can. -/
def LosesField (c : Context) (cs : CallSite) : Prop :=
  c.config.byField = true ∧ ∃ p, cs.provenance = some p ∧
    (∃ fi ∈ c.addressTaken, fi.sig = cs.sig ∧ p.disc ∈ fi.evidence) ∧
    (∀ fi ∈ c.addressTaken, fi.sig = cs.sig → p.disc ∈ fi.evidence → ¬ c.CanReach cs.module fi) ∧
    ∃ fi ∈ c.addressTaken, fi.sig = cs.sig ∧ c.CanReach cs.module fi

end Context

namespace Pass

/-- Records of calls compare as their matches do, whatever the settings. -/
theorem Resolved.rel_sites {pass : Pass} {config config' : Config} {ms : List Nat} {c c' : Context}
    (hc : pass.Resolved config ms c) (hc' : pass.Resolved config' ms c') {id : CallId}
    {R : CallSite → CallSite → Prop}
    (h : ∀ cs, (pass.gathered config ms).site? id = some cs →
      R (matched (pass.gathered config ms) cs) (matched (pass.gathered config' ms) cs)) :
    Option.Rel R (c.site? id) (c'.site? id) := by
  have hsame : (pass.gathered config' ms).site? id = (pass.gathered config ms).site? id := by
    rw [gathered_site?, gathered_site?]
  rw [hc.sites, hc'.sites, hsame]
  cases hcs : (pass.gathered config ms).site? id with
  | none => exact .none
  | some cs => exact .some (h cs hcs)

theorem callees_eq_nil_iff {cs : CallSite} {kind : FuncInfo → Prop}
    (h : Context.Targets cs kind) : cs.callees = [] ↔ ∀ fi, ¬ kind fi := by
  constructor
  · intro hnil fi hfi
    have hmem := (h fi.target).mpr ⟨fi, hfi, rfl⟩
    rw [hnil] at hmem
    cases hmem
  · intro hnone
    apply List.eq_nil_iff_forall_not_mem.mpr
    intro t ht
    obtain ⟨fi, hfi, -⟩ := (h t).mp ht
    exact hnone fi hfi

/-! ### Fields -/

/-- Where fields are not told apart, a call has all targets that fit its signature. -/
theorem matched_without_field {c : Context} (hc : c.Indexed) (hfield : c.config.byField = false)
    (cs : CallSite) : Context.Targets (matched c cs) (c.Fits cs) := by
  have hnone : ¬ ∃ fi, c.FitsField cs fi := by
    rintro ⟨fi, -, hon, -⟩
    rw [hfield] at hon
    cases hon
  exact ((matched_answers hc cs).signature hnone).2

theorem matched_narrows {c c' : Context} (h : c.Agree c') (hc : c.Indexed) (hc' : c'.Indexed)
    (hmodule : c'.config.byModule = c.config.byModule) (hoff : c'.config.byField = false)
    (cs : CallSite) : (matched c cs).Narrows (matched c' cs) := by
  have hall := matched_without_field hc' hoff cs
  have hfwd : ∀ fi, c.Fits cs fi → ∃ fi', fi.Alike fi' ∧ c'.Fits cs fi' :=
    fun fi => h.fits hc hc' (by simp [hmodule])
  have hbwd : ∀ fi, c'.Fits cs fi → ∃ fi', fi.Alike fi' ∧ c.Fits cs fi' :=
    fun fi => h.symm.fits hc' hc (by simp [hmodule])
  by_cases hfield : ∃ fi, c.FitsField cs fi
  · obtain ⟨hlayer, htargets⟩ := (matched_answers hc cs).field hfield
    have hfits : ∀ fi, c.FitsField cs fi → ∃ fi', fi.Alike fi' ∧ c'.Fits cs fi' :=
      fun fi hfi => hfwd fi hfi.1
    refine ⟨?_, ?_, ?_⟩
    · intro t ht
      exact (hall t).mpr (Context.Targets.mono hfits ((htargets t).mp ht))
    · -- Both have a target: the function stored into the field.
      obtain ⟨fi, hfi⟩ := hfield
      obtain ⟨fi', -, hfi'⟩ := hfits fi hfi
      rw [callees_eq_nil_iff htargets, callees_eq_nil_iff hall]
      exact ⟨fun hnone => absurd hfi (hnone fi), fun hnone => absurd hfi' (hnone fi')⟩
    · intro hsig
      rw [hlayer] at hsig
      cases hsig
  · obtain ⟨-, htargets⟩ := (matched_answers hc cs).signature hfield
    have hiff : ∀ t, t ∈ (matched c cs).callees ↔ t ∈ (matched c' cs).callees := by
      intro t
      rw [htargets t, hall t]
      exact ⟨Context.Targets.mono hfwd, Context.Targets.mono hbwd⟩
    refine ⟨fun t ht => (hiff t).mp ht, ?_, fun _ => hiff⟩
    simp only [List.eq_nil_iff_forall_not_mem, hiff]

end Pass

/-- Telling fields apart narrows the targets of every call and never empties them. -/
theorem byField_narrows {p : Program} (hpaths : (p.map ModuleFile.path).Nodup) {config : Config}
    {root : ByteString} {fs : Files} {on off : AnalysisResult}
    (hon : analyze ⟨{ config with byField := true }, root⟩ fs p = .ok on)
    (hoff : analyze ⟨{ config with byField := false }, root⟩ fs p = .ok off) (id : CallId) :
    Option.Rel CallSite.Narrows (on.context.site? id) (off.context.site? id) := by
  refine (analyze_resolved hpaths hon).rel_sites (analyze_resolved hpaths hoff) ?_
  intro cs _
  exact Pass.matched_narrows (Pass.gathered_agree_config _ _ _ _) (Pass.gathered_indexed _ _ _)
    (Pass.gathered_indexed _ _ _) (by simp) (by simp) cs

theorem byField_narrows_table :
    Table.program.targets { Config.standard with byField := true } = some Table.refined ∧
      Table.program.targets { Config.standard with byField := false } = some Table.coarse ∧
      ∃ on off, analyze ⟨{ Config.standard with byField := true }, ""⟩ default Table.program =
          .ok on ∧
        analyze ⟨{ Config.standard with byField := false }, ""⟩ default Table.program = .ok off ∧
        ∀ id, Option.Rel CallSite.Narrows (on.context.site? id) (off.context.site? id) := by
  have htargets : Table.program.targets { Config.standard with byField := true } =
      some Table.refined := by decide +kernel
  have htargets' : Table.program.targets { Config.standard with byField := false } =
      some Table.coarse := by decide +kernel
  obtain ⟨on, hon, -⟩ := Program.targets_eq_some htargets
  obtain ⟨off, hoff, -⟩ := Program.targets_eq_some htargets'
  exact ⟨htargets, htargets', on, off, hon, hoff,
    byField_narrows (by decide +kernel) hon hoff⟩

/-! ### Modules -/

namespace Pass

/-- Records of one function in states that tell the same are alike. -/
theorem alike_of_target {c c' : Context} (h : c.Agree c') (hc : c.Indexed) (hc' : c'.Indexed)
    {fi fi' : FuncInfo} (hfi : fi ∈ c.addressTaken) (hfi' : fi' ∈ c'.addressTaken)
    (htarget : fi'.target = fi.target) : fi.Alike fi' := by
  obtain ⟨fi'', hfi'', halike⟩ := h.addressTaken hc hc' hfi
  have hid : fi''.id = fi'.id := halike.id.trans (congrArg Target.id htarget).symm
  have hinfo := hc'.mem_addressTaken.mp hfi''
  rw [hid, hc'.mem_addressTaken.mp hfi'] at hinfo
  cases hinfo
  exact halike

/-- If only the other state knows a function for the field, the targets have none in common, and
those that fit are kept apart from the field. -/
theorem subset_iff_of_lost {c c' : Context} (h : c.Agree c') (hc : c.Indexed) (hc' : c'.Indexed)
    (hfield : c'.config.byField = c.config.byField) {cs : CallSite}
    (hin : ¬ ∃ fi, c.FitsField cs fi) (hin' : ∃ fi, c'.FitsField cs fi) :
    (matched c cs).callees ⊆ (matched c' cs).callees ↔ ¬ ∃ fi, c.Fits cs fi := by
  obtain ⟨-, htargets⟩ := (matched_answers hc cs).signature hin
  obtain ⟨-, htargets'⟩ := (matched_answers hc' cs).field hin'
  constructor
  · rintro hsub ⟨fi, hfi⟩
    have hmem := hsub ((htargets fi.target).mpr ⟨fi, hfi, rfl⟩)
    obtain ⟨fi', ⟨hfits', hbyField, p, hp, hdisc⟩, htarget⟩ := (htargets' fi.target).mp hmem
    have halike := alike_of_target h hc hc' hfi.1 hfits'.1 htarget
    exact hin ⟨fi, hfi, hfield.symm.trans hbyField, p, hp, (halike.evidence p.disc).mp hdisc⟩
  · intro hnone t ht
    obtain ⟨fi, hfi, -⟩ := (htargets t).mp ht
    exact absurd ⟨fi, hfi⟩ hnone

/-- A call loses its field if only the state that does not tell modules apart knows a function for
it, and the other state knows a function for the signature. -/
theorem losesField_iff {c c' : Context} (h : c.Agree c') (hc : c.Indexed) (hc' : c'.Indexed)
    (hon : c.config.byModule = true) (hoff : c'.config.byModule = false)
    (hfield : c'.config.byField = c.config.byField) (cs : CallSite) :
    c.LosesField cs ↔
      (∃ fi, c'.FitsField cs fi) ∧ (¬ ∃ fi, c.FitsField cs fi) ∧ ∃ fi, c.Fits cs fi := by
  constructor
  · rintro ⟨hbyField, p, hp, ⟨fi, htaken, hsig, hdisc⟩, hnone, fi₀, htaken₀, hsig₀, hreach₀⟩
    refine ⟨?_, ?_, fi₀, htaken₀, hsig₀, fun _ => hreach₀⟩
    · obtain ⟨fi', htaken', halike⟩ := h.addressTaken hc hc' htaken
      exact ⟨fi', ⟨htaken', halike.sig.trans hsig, by simp [hoff]⟩, hfield.trans hbyField, p, hp,
        (halike.evidence p.disc).mpr hdisc⟩
    · rintro ⟨fi, ⟨htaken, hsig, hreach⟩, -, p', hp', hdisc⟩
      rw [hp] at hp'
      cases hp'
      exact hnone fi htaken hsig hdisc (hreach hon)
  · rintro ⟨⟨fi', ⟨htaken', hsig', -⟩, hbyField', p, hp, hdisc'⟩, hin, fi, htaken, hsig, hreach⟩
    have hbyField := hfield.symm.trans hbyField'
    obtain ⟨fi'', htaken'', halike⟩ := h.symm.addressTaken hc' hc htaken'
    refine ⟨hbyField, p, hp, ⟨fi'', htaken'', halike.sig.trans hsig',
      (halike.evidence p.disc).mpr hdisc'⟩, ?_, fi, htaken, hsig, hreach hon⟩
    intro f hf hfsig hfdisc hfreach
    exact hin ⟨f, ⟨hf, hfsig, fun _ => hfreach⟩, hbyField, p, hp, hfdisc⟩

theorem matched_subset_iff {c c' : Context} (h : c.Agree c') (hc : c.Indexed) (hc' : c'.Indexed)
    (hon : c.config.byModule = true) (hoff : c'.config.byModule = false)
    (hfield : c'.config.byField = c.config.byField) (cs : CallSite) :
    (matched c cs).callees ⊆ (matched c' cs).callees ↔ ¬ c.LosesField cs := by
  have hfits : ∀ fi, c.Fits cs fi → ∃ fi', fi.Alike fi' ∧ c'.Fits cs fi' :=
    fun fi => h.fits hc hc' (by simp [hoff])
  have hkept : ∀ fi, c.FitsField cs fi → ∃ fi', fi.Alike fi' ∧ c'.FitsField cs fi' :=
    fun fi => h.fitsField hc hc' (by simp [hoff]) hfield
  rw [losesField_iff h hc hc' hon hoff hfield]
  by_cases hin : ∃ fi, c.FitsField cs fi
  · -- The field keeps a function, so it decides in both states.
    have hin' : ∃ fi, c'.FitsField cs fi := by
      obtain ⟨fi, hfi⟩ := hin
      obtain ⟨fi', -, hfi'⟩ := hkept fi hfi
      exact ⟨fi', hfi'⟩
    refine iff_of_true ?_ (fun hlost => hlost.2.1 hin)
    intro t ht
    have htargets := ((matched_answers hc cs).field hin).2
    have htargets' := ((matched_answers hc' cs).field hin').2
    exact (htargets' t).mpr (Context.Targets.mono hkept ((htargets t).mp ht))
  · by_cases hin' : ∃ fi, c'.FitsField cs fi
    · rw [subset_iff_of_lost h hc hc' hfield hin hin']
      simp [hin, hin']
    · -- The signature decides in both states.
      refine iff_of_true ?_ (fun hlost => hin' hlost.1)
      intro t ht
      have htargets := ((matched_answers hc cs).signature hin).2
      have htargets' := ((matched_answers hc' cs).signature hin').2
      exact (htargets' t).mpr (Context.Targets.mono hfits ((htargets t).mp ht))

end Pass

/-! ### Calls that keep their field -/

/-- A callee that, if it was loaded, was loaded from a plain address. -/
def IR.Frame.PlainCallee (fr : Frame) (callee : Option Value) : Prop :=
  ∀ v i t src, callee = some v → fr.inst? (fr.strip v) = some i → i.op = .load t src → fr.Plain src

/-- The callee of the call at a position, if it was loaded, was loaded from a plain address. -/
def Program.PlainCallee (p : Program) (id : CallId) : Prop :=
  ∀ path m f i c, p[id.module]? = some ⟨path, some m⟩ → m.funcs[id.func]? = some f →
    f.inst? id.block id.inst = some i → i.op = .call c →
    Frame.PlainCallee ⟨m, some f⟩ c.callee

def CallSite.loadedField (cs : CallSite) : Set (Signature × Int64) :=
  { slot | cs.provenance = some ⟨slot.1, slot.2⟩ }

/-- A callee loaded from a plain address belongs to a struct type of the module. -/
theorem Scanner.provenance_owner {sc : Scanner} (hdefs : sc.layout.defs = sc.module.typeDefs)
    {f : Func} (hf : f ∈ sc.module.funcs) {callee : Option Value}
    (hplain : Frame.PlainCallee ⟨sc.module, some f⟩ callee) {memory : Memory} {p : Provenance}
    (h : (sc.provenance ⟨sc.module, some f⟩ callee memory).1 = some p) :
    ∃ st ∈ sc.module.structTypes, p.owner = sc.view.signature st.toTy := by
  cases hop : (callee.bind fun v => Frame.inst? ⟨sc.module, some f⟩
      (Frame.strip ⟨sc.module, some f⟩ v)).map Inst.op with
  | none =>
    simp only [provenance, hop] at h
    cases h
  | some op =>
    cases op with
    | load t src =>
      simp only [provenance, hop, resolve, bind, StateT.bind] at h
      obtain ⟨i, hi, hload⟩ := Option.map_eq_some_iff.mp hop
      obtain ⟨v, hv, hi⟩ := Option.bind_eq_some_iff.mp hi
      have howned := Layout.resolve_ownedBy hdefs hf (hplain v i t src hv hi hload)
      cases hres : sc.layout.resolve ⟨sc.module, some f⟩ src memory.layouts with
      | none =>
        simp only [hres] at h
        cases h
      | some found =>
        obtain ⟨field, layouts⟩ := found
        simp only [hres] at h
        cases field with
        | none => cases h
        | some r =>
          cases h
          exact ⟨r.owner, howned memory.layouts (some r) layouts hres r rfl, rfl⟩
    | _ =>
      simp only [provenance, hop] at h
      cases h

namespace Pass

/-- The struct that a callee was loaded from, by a plain address, is visible to the call. -/
theorem gathered_owner_visible {pass : Pass} {config : Config} {ms : List Nat} {id : CallId}
    {cs : CallSite} (hcs : (pass.gathered config ms).site? id = some cs)
    (hplain : pass.program.PlainCallee cs.id) {p : Provenance} (hp : cs.provenance = some p) :
    (pass.gathered config ms).visibleIn cs.module p.owner = true := by
  rw [gathered_site?] at hcs
  obtain ⟨module, hmodule, hcs⟩ := List.mem_flatMap.mp (List.mem_of_find?_eq_some hcs)
  obtain ⟨path, m, f, id, i, c, t, memory, hfile, hstep, hop, rfl⟩ := callsOf_siteOf hcs
  obtain ⟨hindex, hfunc, hinst⟩ := Scanner.mem_steps_inst.mp hstep
  have hfile' : pass.Holds id.module path m := hindex ▸ hfile
  have hdefs : (pass.scanner module path m).layout.defs = m.typeDefs := rfl
  obtain ⟨st, hst, howner⟩ := Scanner.provenance_owner hdefs (List.mem_of_getElem? hfunc)
    (hplain path m f i c hfile' hfunc hinst hop) hp
  have hmark : p.owner.salted path ∈ (pass.gathered config ms).visible := by
    rw [gathered_visible]
    refine ⟨module, hmodule, path, m, hfile, st, hst, ?_⟩
    rw [howner]
    rfl
  exact List.contains_iff_mem.mpr hmark

/-- A field that is recorded for a function has its struct among the owners, unless fields share a
discriminator. -/
theorem gathered_owner {pass : Pass} {config : Config} {ms : List Nat} {slot : Signature × Int64}
    (hinj : Set.InjOn FuncInfo.disc (insert slot pass.storedFields)) {id : FuncId} {fi : FuncInfo}
    (hfi : (pass.gathered config ms).info? id = some fi)
    (hdisc : FuncInfo.disc slot ∈ fi.evidence) : slot.1 ∈ fi.owners := by
  rw [gathered_info?] at hfi
  split at hfi
  · cases hfi
  · cases hfi
    have hslots : ∀ s ∈ (pass.history ms id).filterMap Fact.slot?,
        s ∈ insert slot pass.storedFields :=
      fun s hs => Set.mem_insert_of_mem slot (pass.history_slots ms id s hs)
    rw [FuncInfo.mem_evidence_foldl_learn, (pass.blank_blank id).1] at hdisc
    obtain ⟨s, hs, heq⟩ := hdisc.resolve_left List.not_mem_nil
    have hsame : s = slot := hinj (hslots s hs) (Set.mem_insert slot _) heq
    rw [FuncInfo.mem_owners_foldl_learn hinj hslots (pass.blank_blank id).1 (pass.blank_blank id).2]
    exact ⟨s, hs, by rw [hsame]⟩

/-- A call whose callee was loaded from a plain address does not lose its field. -/
theorem not_losesField {pass : Pass} {config : Config} {ms : List Nat} {id : CallId}
    {cs : CallSite} (hcs : (pass.gathered config ms).site? id = some cs)
    (hplain : pass.program.PlainCallee cs.id)
    (hinj : Set.InjOn FuncInfo.disc (cs.loadedField ∪ pass.storedFields)) :
    ¬ (pass.gathered config ms).LosesField cs := by
  rintro ⟨-, p, hp, ⟨fi, htaken, hsig, hdisc⟩, hnone, -⟩
  have hslot : insert (p.owner, p.field) pass.storedFields ⊆ cs.loadedField ∪ pass.storedFields :=
    Set.insert_subset (.inl hp) Set.subset_union_right
  have hinfo := (pass.gathered_indexed config ms).mem_addressTaken.mp htaken
  have howner : p.owner ∈ fi.owners := gathered_owner (hinj.mono hslot) hinfo hdisc
  have hvisible := gathered_owner_visible hcs hplain hp
  exact hnone fi htaken hsig hdisc (.inr (.inr (.inr (.inl ⟨p.owner, howner, hvisible⟩))))

end Pass

/-- Telling modules apart only removes targets from a call, unless the call loses its field. For
that its callee has to be loaded from an address computed from constants, or two fields have to
share a discriminator. -/
theorem byModule_removes_iff {p : Program} (hpaths : (p.map ModuleFile.path).Nodup)
    {config : Config} {root : ByteString} {fs : Files} {on off : AnalysisResult}
    (hon : analyze ⟨{ config with byModule := true }, root⟩ fs p = .ok on)
    (hoff : analyze ⟨{ config with byModule := false }, root⟩ fs p = .ok off) (id : CallId) :
    Option.Rel (fun cs cs' =>
        (cs.callees ⊆ cs'.callees ↔ ¬ on.context.LosesField cs) ∧
        (p.PlainCallee id →
          Set.InjOn FuncInfo.disc (cs.loadedField ∪ (Pass.ofProgram p).storedFields) →
          cs.callees ⊆ cs'.callees))
      (on.context.site? id) (off.context.site? id) := by
  have hresolved := analyze_resolved hpaths hon
  obtain ⟨sites, stats, hframe⟩ := hresolved.frame
  refine hresolved.rel_sites (analyze_resolved hpaths hoff) ?_
  intro cs hcs
  have hagree := Pass.gathered_agree_config (.ofProgram p) { config with byModule := true }
    { config with byModule := false } (List.range p.length)
  have hiff := Pass.matched_subset_iff hagree (Pass.gathered_indexed _ _ _)
    (Pass.gathered_indexed _ _ _) (by simp) (by simp) (by simp) cs
  rw [hframe]
  refine ⟨hiff, fun hplain hinj => hiff.mpr (Pass.not_losesField hcs ?_ hinj)⟩
  rw [(Pass.gathered_indexed _ _ _).calls.key_eq id cs hcs]
  exact hplain

/-! ### A field at a constant address -/

namespace Bypass

/-- A struct of a pointer to a function and a number. Its occurrences differ in their label. -/
def entry (label : Nat) : Ty := .struct (.literal label) false [Table.hook, .int 32]

def slot : Const :=
  .gep (entry 0) (.cast .bit (.global 0) (.ptr 0 (entry 1)))
    [.int (.int 32) 0, .int (.int 32) 0]

/-- Calls the function of an entry that it takes a global of another type for. -/
def user : Module := { Module.empty with
  globals := [⟨.named "base", .external, 0, .int 8, none⟩]
  funcs := [Table.func "run" .unspecified [] [
    ⟨.load Table.hook (.const slot), Table.hook, []⟩,
    ⟨.call ⟨some (.inst 0 0), some .void, []⟩, .void, []⟩]] }

def owner : Module := { Module.empty with
  globals := [
    ⟨.named "table", .internalOnly, 0, entry 0,
      some (.struct (entry 1) [.func 0, .int (.int 32) 0])⟩,
    ⟨.named "exported", .unspecified, 0, Table.hook, some (.func 1)⟩]
  funcs := [Table.func "stored" .internalOnly [] [], Table.func "other" .unspecified [] []] }

def program : Program := [⟨"user", some user⟩, ⟨"owner", some owner⟩]

/-- Where modules are not told apart, the call reaches the function of the entry. -/
def direct : Layer × List ByteString := (.field, ["stored"])

/-- Where they are, that function is out of reach, and the call falls back to its signature. -/
def fallback : Layer × List ByteString := (.signature, ["other"])

end Bypass

theorem byModule_removes_iff_bypass :
    Bypass.program.targets { Config.standard with byModule := true } =
        some [Bypass.fallback] ∧
      Bypass.program.targets { Config.standard with byModule := false } =
        some [Bypass.direct] ∧
      ∃ on off, analyze ⟨{ Config.standard with byModule := true }, ""⟩ default Bypass.program =
          .ok on ∧
        analyze ⟨{ Config.standard with byModule := false }, ""⟩ default Bypass.program =
          .ok off ∧
        ∃ cs ∈ on.context.callSites, ∃ cs' ∈ off.context.callSites, cs.id = cs'.id ∧
          ¬ cs.callees ⊆ cs'.callees ∧ on.context.LosesField cs := by
  have htargets : Bypass.program.targets { Config.standard with byModule := true } =
      some [Bypass.fallback] := by decide +kernel
  have htargets' : Bypass.program.targets { Config.standard with byModule := false } =
      some [Bypass.direct] := by decide +kernel
  have hpaths : (Bypass.program.map ModuleFile.path).Nodup := by decide +kernel
  obtain ⟨on, hon, hsites⟩ := Program.targets_eq_some htargets
  obtain ⟨off, hoff, hsites'⟩ := Program.targets_eq_some htargets'
  refine ⟨htargets, htargets', on, off, hon, hoff, ?_⟩
  have hindexed := (analyze_resolved hpaths hon).indexed
  have hindexed' := (analyze_resolved hpaths hoff).indexed
  obtain ⟨cs, hall, hcs⟩ := List.map_eq_singleton_iff.mp hsites
  have hmem : cs ∈ on.context.callSites := by simp [hall]
  have hrel := byModule_removes_iff hpaths hon hoff cs.id
  rw [hindexed.mem_callSites.mp hmem] at hrel
  generalize hother : off.context.site? cs.id = found at hrel
  cases hrel with
  | @some _ cs' h =>
    have hid := hindexed'.calls.key_eq _ _ hother
    have hmem' : cs' ∈ off.context.callSites := hindexed'.mem_callSites.mpr (by rw [hid, hother])
    have hcs' : (cs'.layer, cs'.callees.map Target.name) = Bypass.direct := by
      have := List.mem_map_of_mem (f := fun cs : CallSite =>
        (cs.layer, cs.callees.map Target.name)) hmem'
      rw [hsites'] at this
      exact List.mem_singleton.mp this
    have hlost : ¬ cs.callees ⊆ cs'.callees := by
      intro hsub
      have hnames := List.map_subset Target.name hsub
      rw [(Prod.mk.inj hcs).2, (Prod.mk.inj hcs').2] at hnames
      exact absurd hnames (by decide)
    exact ⟨cs, hmem, cs', hmem', hid.symm, hlost, not_not.mp (mt h.1.mpr hlost)⟩

end CallTargets
