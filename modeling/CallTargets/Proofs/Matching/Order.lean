import CallTargets.Proofs.Discovery.Order
import CallTargets.Proofs.Matching.Declarative
import CallTargets.Proofs.Sorting

/-!
# Runs in another order

Matching reads of the functions only what they tell as sets, so it gives a call the same targets in
states that tell the same. The main statement is that the order in which a run visits the modules
has no influence: not on whether it succeeds, and not on the functions and their records, the
targets and layers of the calls, the statistics and the report.
-/
namespace CallTargets

open IR

namespace Context

/-! ### States that tell the same -/

theorem Agree.symm {c c' : Context} (h : c.Agree c') : c'.Agree c where
  infos id := by
    have hrel := h.infos id
    generalize c.info? id = info at hrel ⊢
    generalize c'.info? id = info' at hrel ⊢
    cases hrel with
    | some halike => exact .some halike.symm
    | none => exact .none
  visible module sig := (h.visible module sig).symm
  references module global := (h.references module global).symm

/-- Who can reach a function depends on what its record tells, and on what the module can see. -/
theorem CanReach.of_alike {c c' : Context} {module : ByteString} {fi fi' : FuncInfo}
    (hreach : c.CanReach module fi) (halike : fi.Alike fi')
    (hvisible : ∀ sig, c'.visibleIn module sig = c.visibleIn module sig)
    (hreferences : ∀ g, c'.references module g = c.references module g) :
    c'.CanReach module fi' := by
  have hescapes : fi'.escapesModule = fi.escapesModule := by
    rw [FuncInfo.escapesModule, halike.escapes]
    rfl
  rcases hreach with hlocal | hmodule | hesc | ⟨owner, howner, hvis⟩ | ⟨g, hg, href⟩
  · exact .inl (halike.isLocal.trans hlocal)
  · exact .inr (.inl (halike.module.trans hmodule))
  · exact .inr (.inr (.inl (hescapes.trans hesc)))
  · exact .inr (.inr (.inr (.inl
      ⟨owner, (halike.owners owner).mpr howner, (hvisible owner).trans hvis⟩)))
  · exact .inr (.inr (.inr (.inr
      ⟨g, (halike.published g).mpr hg, (hreferences g).trans href⟩)))

theorem Agree.canReach {c c' : Context} (h : c.Agree c') {fi fi' : FuncInfo} (halike : fi.Alike fi')
    {module : ByteString} (hreach : c.CanReach module fi) : c'.CanReach module fi' :=
  hreach.of_alike halike (h.visible module) (h.references module)

theorem Agree.addressTaken {c c' : Context} (h : c.Agree c') (hc : c.Indexed) (hc' : c'.Indexed)
    {fi : FuncInfo} (hfi : fi ∈ c.addressTaken) : ∃ fi' ∈ c'.addressTaken, fi.Alike fi' := by
  have hinfo := hc.mem_addressTaken.mp hfi
  have hrel := h.infos fi.id
  rw [hinfo] at hrel
  cases hinfo' : c'.info? fi.id with
  | none =>
    rw [hinfo'] at hrel
    cases hrel
  | some fi' =>
    rw [hinfo'] at hrel
    cases hrel with
    | some halike =>
      refine ⟨fi', hc'.mem_addressTaken.mpr ?_, halike⟩
      rw [halike.id]
      exact hinfo'

/-- A function that fits a call has its like in a state that tells modules apart only if this one
does. -/
theorem Agree.fits {c c' : Context} (h : c.Agree c') (hc : c.Indexed) (hc' : c'.Indexed)
    (hmodule : c'.config.byModule = true → c.config.byModule = true) {cs : CallSite} {fi : FuncInfo}
    (hfi : c.Fits cs fi) : ∃ fi', fi.Alike fi' ∧ c'.Fits cs fi' := by
  obtain ⟨htaken, hsig, hreach⟩ := hfi
  obtain ⟨fi', htaken', halike⟩ := h.addressTaken hc hc' htaken
  refine ⟨fi', halike, htaken', halike.sig.trans hsig, ?_⟩
  intro hmodule'
  exact h.canReach halike (hreach (hmodule hmodule'))

theorem Agree.fitsField {c c' : Context} (h : c.Agree c') (hc : c.Indexed) (hc' : c'.Indexed)
    (hmodule : c'.config.byModule = true → c.config.byModule = true)
    (hfield : c'.config.byField = c.config.byField) {cs : CallSite} {fi : FuncInfo}
    (hfi : c.FitsField cs fi) : ∃ fi', fi.Alike fi' ∧ c'.FitsField cs fi' := by
  obtain ⟨hfits, hon, p, hp, hdisc⟩ := hfi
  obtain ⟨fi', halike, hfits'⟩ := h.fits hc hc' hmodule hfits
  exact ⟨fi', halike, hfits', hfield.trans hon, p, hp, (halike.evidence p.disc).mpr hdisc⟩

/-- If the functions of a kind have their like in another kind, so have their targets. -/
theorem Targets.mono {kind kind' : FuncInfo → Prop}
    (h : ∀ fi, kind fi → ∃ fi', fi.Alike fi' ∧ kind' fi') {t : Target}
    (ht : ∃ fi, kind fi ∧ fi.target = t) : ∃ fi, kind' fi ∧ fi.target = t := by
  obtain ⟨fi, hfi, rfl⟩ := ht
  obtain ⟨fi', halike, hfi'⟩ := h fi hfi
  exact ⟨fi', hfi', halike.target_eq⟩

/-- The targets of a call under names are the names of the functions of a kind. -/
theorem Targets.mem_map {β : Type} {cs : CallSite} {kind : FuncInfo → Prop} (h : Targets cs kind)
    (name : Target → β) (b : β) :
    b ∈ cs.callees.map name ↔ ∃ fi, kind fi ∧ name fi.target = b := by
  rw [List.mem_map]
  constructor
  · rintro ⟨t, ht, rfl⟩
    obtain ⟨fi, hfi, rfl⟩ := (h t).mp ht
    exact ⟨fi, hfi, rfl⟩
  · rintro ⟨fi, hfi, rfl⟩
    exact ⟨fi.target, (h fi.target).mpr ⟨fi, hfi, rfl⟩, rfl⟩

/-- If the same names fit two calls, then both have the same layer, and targets of the same
names. -/
theorem Answers.congr {β : Type} (name name' : Target → β) {c c' : Context} {cs cs' : CallSite}
    (h : c.Answers cs) (h' : c'.Answers cs')
    (hfits : ∀ b, (∃ fi, c'.Fits cs' fi ∧ name' fi.target = b) ↔
      ∃ fi, c.Fits cs fi ∧ name fi.target = b)
    (hfield : ∀ b, (∃ fi, c'.FitsField cs' fi ∧ name' fi.target = b) ↔
      ∃ fi, c.FitsField cs fi ∧ name fi.target = b) :
    cs'.layer = cs.layer ∧ ∀ b, b ∈ cs'.callees.map name' ↔ b ∈ cs.callees.map name := by
  by_cases hsome : ∃ fi, c.FitsField cs fi
  · have hsome' : ∃ fi, c'.FitsField cs' fi := by
      obtain ⟨fi, hfi⟩ := hsome
      obtain ⟨fi', hfi', -⟩ := (hfield (name fi.target)).mpr ⟨fi, hfi, rfl⟩
      exact ⟨fi', hfi'⟩
    obtain ⟨hlayer, htargets⟩ := h.field hsome
    obtain ⟨hlayer', htargets'⟩ := h'.field hsome'
    refine ⟨hlayer'.trans hlayer.symm, fun b => ?_⟩
    rw [htargets.mem_map, htargets'.mem_map, hfield]
  · have hsome' : ¬ ∃ fi, c'.FitsField cs' fi := by
      rintro ⟨fi', hfi'⟩
      obtain ⟨fi, hfi, -⟩ := (hfield (name' fi'.target)).mp ⟨fi', hfi', rfl⟩
      exact hsome ⟨fi, hfi⟩
    obtain ⟨hlayer, htargets⟩ := h.signature hsome
    obtain ⟨hlayer', htargets'⟩ := h'.signature hsome'
    refine ⟨hlayer'.trans hlayer.symm, fun b => ?_⟩
    rw [htargets.mem_map, htargets'.mem_map, hfits]

end Context

/-- Two records of one call with the same layer and, as sets, the same targets. -/
structure CallSite.Alike (cs cs' : CallSite) : Prop where
  id : cs'.id = cs.id
  caller : cs'.caller = cs.caller
  module : cs'.module = cs.module
  sig : cs'.sig = cs.sig
  provenance : cs'.provenance = cs.provenance
  layer : cs'.layer = cs.layer
  callees : ∀ t, t ∈ cs'.callees ↔ t ∈ cs.callees

namespace Pass

end Pass

/-! ### Numbers of targets -/

theorem Target.normalize_perm {ts : List Target} (h : ts.Nodup) : (normalize ts).Perm ts := by
  have hsorted := sortBy_perm Target.before ts
  rw [normalize, dropRepeats_of_nodup (hsorted.nodup_iff.mpr h)]
  exact hsorted

namespace Pass

/-- The candidates for a call are on record, in the order of their discovery. -/
theorem candidates_sublist {c : Context} (hc : c.Indexed) (cs : CallSite) :
    (candidates c cs).2.Sublist c.addressTaken := by
  have hfirst : (firstLayer c cs).Sublist c.addressTaken := by
    unfold firstLayer
    rw [hc.funcsBySig_eq]
    dsimp only
    split
    · exact List.filter_sublist.trans List.filter_sublist
    · exact List.filter_sublist
  have hnarrowed : (narrowed c cs).Sublist (firstLayer c cs) := by
    unfold narrowed secondLayer
    split
    · split
      · exact List.filter_sublist
      · exact List.nil_sublist _
    · exact List.nil_sublist _
  rw [candidates_eq]
  split
  · exact hfirst
  · exact hnarrowed.trans hfirst

theorem candidates_nodup {c : Context} (hc : c.Indexed) (cs : CallSite) :
    ((candidates c cs).2.map FuncInfo.id).Nodup :=
  hc.addressTaken_nodup.sublist ((candidates_sublist hc cs).map _)

theorem matched_callees_nodup {c : Context} (hc : c.Indexed) (cs : CallSite) :
    (matched c cs).callees.Nodup := by
  have hids := candidates_nodup hc cs
  have htargets : ((candidates c cs).2.map FuncInfo.target).Nodup := by
    apply List.Nodup.of_map Target.id
    rw [List.map_map]
    exact hids
  exact (Target.normalize_perm htargets).nodup_iff.mpr htargets

end Pass

namespace Stats

/-- A call adds to each count a number of its own. -/
theorem addCall_eq (s : Stats) (cs : CallSite) :
    s.addCall cs =
      let n := cs.callees.length.toUInt64
      { s with
        callsWithTargets := s.callsWithTargets + if 0 < n then 1 else 0
        callTargets := s.callTargets + n
        firstLayerCalls := s.firstLayerCalls + if cs.layer = .signature then 1 else 0
        firstLayerTargets := s.firstLayerTargets + if cs.layer = .signature then n else 0
        secondLayerCalls := s.secondLayerCalls + if cs.layer = .field then 1 else 0
        secondLayerTargets := s.secondLayerTargets + if cs.layer = .field then n else 0 } := by
  unfold addCall
  generalize cs.callees.length.toUInt64 = n
  cases cs.layer <;> by_cases hn : 0 < n <;> simp [hn]

end Stats
namespace Stats

end Stats

namespace Pass

theorem Resolved.callees_nodup {pass : Pass} {config : Config} {ms : List Nat} {c : Context}
    (hc : pass.Resolved config ms c) (id : CallId) (cs : CallSite) (hcs : c.site? id = some cs) :
    cs.callees.Nodup := by
  rw [hc.sites] at hcs
  obtain ⟨cs', -, rfl⟩ := Option.map_eq_some_iff.mp hcs
  exact matched_callees_nodup (pass.gathered_indexed config ms) cs'

end Pass

namespace Table

def run (ms : List Nat) : RunOutcome PassState NoSignature :=
  ((Pass.ofProgram program).capped 2).run ms ((Pass.ofProgram program).start .standard)

end Table

end CallTargets
