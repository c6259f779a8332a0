import CallTargets.Proofs.Discovery.Gathering

/-!
# Gathering in another order

The escapes of a function are the union over its history, and its fields and globals are those that
the history names. None of this depends on the order in which the modules are absorbed. The owners
of the fields are read off discriminators, so for them no two different fields may have the same
discriminator.
-/
namespace CallTargets

open IR

namespace Fact

def escape : Fact → Escapes
  | .taken _ how => how
  | _ => .none

def slot? : Fact → Option (Signature × Int64)
  | .evidence _ owner field => some (owner, Int64.ofNat field)
  | _ => none

def global? : Fact → Option ByteString
  | .published _ global => some global
  | _ => none

end Fact

namespace Escapes

theorem union_none (a : Escapes) : a.union .none = a := by
  simp [union, none]

theorem union_right_comm (a b c : Escapes) : (a.union b).union c = (a.union c).union b := by
  simp only [union, UInt8.or_assoc, UInt8.or_comm b.bits c.bits]

theorem union_of_includes {a b : Escapes} (h : a.includes b = true) : a.union b = a := by
  have hbits : a.bits &&& b.bits = b.bits := by simpa [includes] using h
  rw [union, ← hbits]
  congr 1
  apply UInt8.toBitVec_inj.mp
  ext i
  simp +contextual

end Escapes

namespace FuncInfo

def disc (slot : Signature × Int64) : Signature := Signature.layered slot.1 slot.2

theorem learn_sameFunc (fi : FuncInfo) (fact : Fact) : fi.SameFunc (fi.learn fact) := by
  cases fact with
  | taken f how => exact fi.markEscape_sameFunc how
  | evidence f owner field => exact fi.addEvidence_sameFunc owner _
  | published f g => exact fi.publish_sameFunc g
  | call cs => exact .refl fi

theorem learn_escapes (fi : FuncInfo) (fact : Fact) :
    (fi.learn fact).escapes = fi.escapes.union fact.escape := by
  cases fact with
  | taken f how =>
    simp only [learn, Fact.escape]
    unfold markEscape
    split
    · next h => exact (Escapes.union_of_includes h).symm
    · rfl
  | evidence f owner field =>
    simp only [learn, Fact.escape, Escapes.union_none]
    unfold addEvidence
    dsimp only
    split <;> rfl
  | published f g =>
    simp only [learn, Fact.escape, Escapes.union_none]
    unfold publish
    split <;> rfl
  | call cs => exact (Escapes.union_none _).symm

theorem mem_evidence_learn (fi : FuncInfo) (fact : Fact) (d : Signature) :
    d ∈ (fi.learn fact).evidence ↔ d ∈ fi.evidence ∨ ∃ slot ∈ fact.slot?, disc slot = d := by
  cases fact with
  | taken f how =>
    simp only [learn, Fact.slot?]
    unfold markEscape
    split <;> simp
  | evidence f owner field =>
    simp only [learn, Fact.slot?, Option.mem_def, Option.some.injEq, exists_eq_left']
    unfold addEvidence
    dsimp only
    split
    · next h =>
      constructor
      · exact .inl
      · rintro (hd | rfl)
        · exact hd
        · exact h
    · simp [disc, eq_comm]
  | published f g =>
    simp only [learn, Fact.slot?]
    unfold publish
    split <;> simp
  | call cs => simp [learn, Fact.slot?]

theorem mem_published_learn (fi : FuncInfo) (fact : Fact) (g : ByteString) :
    g ∈ (fi.learn fact).published ↔ g ∈ fi.published ∨ fact.global? = some g := by
  cases fact with
  | taken f how =>
    simp only [learn, Fact.global?]
    unfold markEscape
    split <;> simp
  | evidence f owner field =>
    simp only [learn, Fact.global?]
    unfold addEvidence
    dsimp only
    split <;> simp
  | published f g' =>
    simp only [learn, Fact.global?, Option.some.injEq]
    unfold publish
    split
    · next h =>
      constructor
      · exact .inl
      · rintro (hg | rfl)
        · exact hg
        · exact h
    · simp [eq_comm]
  | call cs => simp [learn, Fact.global?]

theorem mem_owners_learn (fi : FuncInfo) (fact : Fact) (o : Signature) :
    o ∈ (fi.learn fact).owners ↔
      o ∈ fi.owners ∨ ∃ slot ∈ fact.slot?, disc slot ∉ fi.evidence ∧ slot.1 = o := by
  cases fact with
  | taken f how =>
    simp only [learn, Fact.slot?]
    unfold markEscape
    split <;> simp
  | evidence f owner field =>
    simp only [learn, Fact.slot?, Option.mem_def, Option.some.injEq, exists_eq_left']
    unfold addEvidence addNew
    dsimp only
    split
    · next h => simp [disc, h]
    · next h =>
      dsimp only
      split
      · next ho =>
        constructor
        · exact .inl
        · rintro (h' | ⟨-, rfl⟩)
          · exact h'
          · exact ho
      · simp [disc, h, eq_comm]
  | published f g =>
    simp only [learn, Fact.slot?]
    unfold publish
    split <;> simp
  | call cs => simp [learn, Fact.slot?]

/-! ### Histories -/

theorem foldl_learn_sameFunc (facts : List Fact) (fi : FuncInfo) :
    fi.SameFunc (facts.foldl learn fi) := by
  induction facts generalizing fi with
  | nil => exact .refl fi
  | cons fact facts ih => exact (fi.learn_sameFunc fact).trans (ih (fi.learn fact))

theorem foldl_learn_escapes (facts : List Fact) (fi : FuncInfo) :
    (facts.foldl learn fi).escapes = (facts.map Fact.escape).foldl Escapes.union fi.escapes := by
  induction facts generalizing fi with
  | nil => rfl
  | cons fact facts ih => rw [List.foldl_cons, ih, learn_escapes, List.map_cons, List.foldl_cons]

theorem mem_evidence_foldl_learn (facts : List Fact) (fi : FuncInfo) (d : Signature) :
    d ∈ (facts.foldl learn fi).evidence ↔
      d ∈ fi.evidence ∨ ∃ slot ∈ facts.filterMap Fact.slot?, disc slot = d := by
  induction facts generalizing fi with
  | nil => simp
  | cons fact facts ih =>
    rw [List.foldl_cons, ih, mem_evidence_learn]
    cases hslot : fact.slot? with
    | none => simp [hslot]
    | some slot =>
      rw [List.filterMap_cons_some hslot]
      simp only [Option.mem_def, Option.some.injEq, exists_eq_left', List.mem_cons,
        exists_eq_or_imp, or_assoc]

theorem mem_published_foldl_learn (facts : List Fact) (fi : FuncInfo) (g : ByteString) :
    g ∈ (facts.foldl learn fi).published ↔
      g ∈ fi.published ∨ g ∈ facts.filterMap Fact.global? := by
  induction facts generalizing fi with
  | nil => simp
  | cons fact facts ih =>
    rw [List.foldl_cons, ih, mem_published_learn]
    simp [or_assoc]

/-- If no two fields share a discriminator, the owners are those of all fields told of. -/
theorem mem_owners_foldl_learn {facts : List Fact} {slots : Set (Signature × Int64)}
    (hinj : Set.InjOn disc slots) (hslots : ∀ slot ∈ facts.filterMap Fact.slot?, slot ∈ slots)
    {fi : FuncInfo} (hevidence : fi.evidence = []) (howners : fi.owners = []) (o : Signature) :
    o ∈ (facts.foldl learn fi).owners ↔ ∃ slot ∈ facts.filterMap Fact.slot?, slot.1 = o := by
  induction facts using List.reverseRecOn with
  | nil => simp [howners]
  | append_singleton facts fact ih =>
    have hslots' : ∀ slot ∈ facts.filterMap Fact.slot?, slot ∈ slots := by
      intro slot hslot
      apply hslots
      rw [List.filterMap_append]
      exact List.mem_append_left _ hslot
    rw [List.foldl_append, List.foldl_cons, List.foldl_nil, mem_owners_learn, ih hslots',
      List.filterMap_append]
    cases hslot : fact.slot? with
    | none => simp [hslot]
    | some slot =>
      have hlast : [fact].filterMap Fact.slot? = [slot] := by simp [hslot]
      have hmem : slot ∈ slots := by
        apply hslots
        rw [List.filterMap_append, hlast]
        simp
      simp only [hlast, Option.mem_def, Option.some.injEq, exists_eq_left', List.mem_append,
        List.mem_singleton]
      constructor
      · rintro (⟨s, hs, rfl⟩ | ⟨-, rfl⟩)
        · exact ⟨s, .inl hs, rfl⟩
        · exact ⟨slot, .inr rfl, rfl⟩
      · rintro ⟨s, hs | rfl, rfl⟩
        · exact .inl ⟨s, hs, rfl⟩
        · by_cases hknown : disc s ∈ (facts.foldl learn fi).evidence
          · -- The discriminator is known, so by injectivity the field itself is.
            rw [mem_evidence_foldl_learn, hevidence] at hknown
            obtain ⟨s', hs', heq⟩ := hknown.resolve_left List.not_mem_nil
            rw [← hinj (hslots' s' hs') hmem heq]
            exact .inl ⟨s', hs', rfl⟩
          · exact .inr ⟨hknown, rfl⟩

/-- Two records of one function that tell the same, as sets. -/
structure Alike (fi fi' : FuncInfo) : Prop extends fi.SameFunc fi' where
  escapes : fi'.escapes = fi.escapes
  evidence : ∀ d, d ∈ fi'.evidence ↔ d ∈ fi.evidence
  owners : ∀ o, o ∈ fi'.owners ↔ o ∈ fi.owners
  published : ∀ g, g ∈ fi'.published ↔ g ∈ fi.published

theorem Alike.refl (fi : FuncInfo) : fi.Alike fi :=
  ⟨.refl fi, rfl, fun _ => .rfl, fun _ => .rfl, fun _ => .rfl⟩

theorem Alike.symm {fi fi' : FuncInfo} (h : fi.Alike fi') : fi'.Alike fi :=
  ⟨⟨h.id.symm, h.name.symm, h.module.symm, h.sig.symm, h.isLocal.symm⟩, h.escapes.symm,
    fun d => (h.evidence d).symm, fun o => (h.owners o).symm, fun g => (h.published g).symm⟩

/-- Learning the same facts in another order leads to a record that tells the same. -/
theorem foldl_learn_alike {facts facts' : List Fact} (hperm : facts.Perm facts')
    {slots : Set (Signature × Int64)} (hinj : Set.InjOn disc slots)
    (hslots : ∀ slot ∈ facts.filterMap Fact.slot?, slot ∈ slots) {fi : FuncInfo}
    (hevidence : fi.evidence = []) (howners : fi.owners = []) :
    (facts.foldl learn fi).Alike (facts'.foldl learn fi) := by
  have h := foldl_learn_sameFunc facts fi
  have h' := foldl_learn_sameFunc facts' fi
  have hslotsPerm : (facts.filterMap Fact.slot?).Perm (facts'.filterMap Fact.slot?) :=
    hperm.filterMap _
  refine ⟨⟨h'.id.trans h.id.symm, h'.name.trans h.name.symm, h'.module.trans h.module.symm,
    h'.sig.trans h.sig.symm, h'.isLocal.trans h.isLocal.symm⟩, ?_, ?_, ?_, ?_⟩
  · rw [foldl_learn_escapes, foldl_learn_escapes]
    exact ((hperm.map Fact.escape).foldl_eq'
      (fun b _ c _ a => Escapes.union_right_comm a b c) fi.escapes).symm
  · intro d
    simp only [mem_evidence_foldl_learn, hslotsPerm.mem_iff]
  · intro o
    have hslots' : ∀ slot ∈ facts'.filterMap Fact.slot?, slot ∈ slots :=
      fun slot hslot => hslots slot (hslotsPerm.mem_iff.mpr hslot)
    rw [mem_owners_foldl_learn hinj hslots hevidence howners,
      mem_owners_foldl_learn hinj hslots' hevidence howners]
    simp only [hslotsPerm.mem_iff]
  · intro g
    simp only [mem_published_foldl_learn, (hperm.filterMap Fact.global?).mem_iff]

end FuncInfo

/-! ### States -/

/-- Two states that tell the same of the functions and of what each module can see. -/
structure Context.Agree (c c' : Context) : Prop where
  infos : ∀ id, Option.Rel FuncInfo.Alike (c.info? id) (c'.info? id)
  visible : ∀ module sig, c'.visibleIn module sig = c.visibleIn module sig
  references : ∀ module global, c'.references module global = c.references module global

namespace Pass

def storedFields (pass : Pass) : Set (Signature × Int64) :=
  { slot | ∃ module id, ∃ fact ∈ pass.factsAbout id module, fact.slot? = some slot }

theorem history_perm (pass : Pass) {ms ms' : List Nat} (h : ms.Perm ms') (id : FuncId) :
    (pass.history ms id).Perm (pass.history ms' id) :=
  h.flatMap_right _

theorem history_slots (pass : Pass) (ms : List Nat) (id : FuncId) :
    ∀ slot ∈ (pass.history ms id).filterMap Fact.slot?, slot ∈ pass.storedFields := by
  intro slot hslot
  obtain ⟨fact, hfact, hsome⟩ := List.mem_filterMap.mp hslot
  obtain ⟨i, -, hi⟩ := List.mem_flatMap.mp hfact
  exact ⟨i, id, fact, hi, hsome⟩

def scannedFields (pass : Pass) : List (Signature × Int64) :=
  ((List.range pass.program.length).flatMap pass.facts).filterMap Fact.slot?

theorem mem_scannedFields {pass : Pass} {slot : Signature × Int64} (h : slot ∈ pass.storedFields) :
    slot ∈ pass.scannedFields := by
  obtain ⟨module, id, fact, hfact, hslot⟩ := h
  have hmem : fact ∈ pass.facts module := (List.mem_filter.mp hfact).1
  have hlt : module < pass.program.length := by
    by_contra hge
    have hnot : ∀ path m, ¬ pass.Holds module path m := by
      intro path m hfile
      exact hge (List.getElem?_eq_some_iff.mp hfile).1
    rw [facts_of_empty hnot] at hmem
    cases hmem
  exact List.mem_filterMap.mpr
    ⟨fact, List.mem_flatMap.mpr ⟨module, List.mem_range.mpr hlt, hmem⟩, hslot⟩

theorem blank_blank (pass : Pass) (id : FuncId) :
    (pass.blank id).evidence = [] ∧ (pass.blank id).owners = [] := by
  unfold blank
  split <;> exact ⟨rfl, rfl⟩

theorem gathered_visibleIn (pass : Pass) (config config' : Config) {ms ms' : List Nat}
    (h : ms.Perm ms') (module : ByteString) (sig : Signature) :
    (pass.gathered config' ms').visibleIn module sig =
      (pass.gathered config ms).visibleIn module sig := by
  rw [Bool.eq_iff_iff]
  simp only [Context.visibleIn, Context.isVisible, List.contains_iff_mem, gathered_visible,
    h.mem_iff]

theorem gathered_references_eq (pass : Pass) (config config' : Config) {ms ms' : List Nat}
    (h : ms.Perm ms') (module global : ByteString) :
    (pass.gathered config' ms').references module global =
      (pass.gathered config ms).references module global := by
  rw [Bool.eq_iff_iff]
  simp only [gathered_references, h.mem_iff]

/-- In the same order, whatever the settings, the records are the same. -/
theorem gathered_agree_config (pass : Pass) (config config' : Config) (ms : List Nat) :
    (pass.gathered config ms).Agree (pass.gathered config' ms) where
  infos id := by
    rw [gathered_info?, gathered_info?]
    split
    · exact .none
    · exact .some (.refl _)
  visible := pass.gathered_visibleIn config config' (.refl ms)
  references := pass.gathered_references_eq config config' (.refl ms)

/-! ### Reports of changes -/

theorem applyAll_quiet {α : Type} {f : Context → α → Bool × Context}
    (h : ∀ c a, (f c a).1 = false → (f c a).2 = c) {as : List α} {changed : Bool} {c : Context}
    (hall : (Context.applyAll f as changed c).1 = false) :
    changed = false ∧ (Context.applyAll f as changed c).2 = c := by
  induction as generalizing changed c with
  | nil => exact ⟨hall, rfl⟩
  | cons a as ih =>
    obtain ⟨hor, heq⟩ := ih hall
    obtain ⟨hchanged, hnew⟩ := Bool.or_eq_false_iff.mp hor
    rw [Context.applyAll, heq]
    exact ⟨hchanged, h c a hnew⟩

/-- A guarded update that reports no change kept the old value. -/
theorem guarded_quiet {α : Type} {known : Prop} [Decidable known] {old new : α}
    (h : (if known then (false, old) else (true, new)).1 = false) :
    (if known then (false, old) else (true, new)).2 = old := by
  by_cases hk : known
  · rw [if_pos hk]
  · rw [if_neg hk] at h
    cases h

theorem updateInfo_quiet {f : FuncId} {g : FuncInfo → Bool × FuncInfo}
    (hg : ∀ fi, (g fi).1 = false → (g fi).2 = fi) {c : Context}
    (h : (c.updateInfo f g).1 = false) : (c.updateInfo f g).2 = c := by
  unfold Context.updateInfo at h ⊢
  split
  · rfl
  · next fi hfi =>
    simp only [hfi] at h
    simp only [hg fi h, Assoc.put_of_get? hfi]

theorem enroll_quiet {pass : Pass} {c : Context} {s : Symbol}
    (h : (pass.enroll c s).1 = false) : (pass.enroll c s).2 = c := by
  unfold enroll at h ⊢
  split
  · next hnone hfunc =>
    simp only [hnone, hfunc] at h
    unfold Context.addTaken at h ⊢
    split at h
    · rfl
    · cases h
  · rfl

theorem recordTaken_quiet {pass : Pass} {c : Context} {s : Symbol} {how : Escapes}
    (h : (pass.recordTaken c s how).1 = false) : (pass.recordTaken c s how).2 = c := by
  rw [recordTaken_eq] at h ⊢
  obtain ⟨hadded, hmarked⟩ := Bool.or_eq_false_iff.mp h
  have hupdate := updateInfo_quiet (g := fun fi => fi.markEscape how)
    (fun fi hfi => guarded_quiet hfi) hmarked
  exact hupdate.trans (enroll_quiet hadded)

theorem recordFact_quiet (pass : Pass) (module : Nat) (c : Context) (fact : Fact)
    (h : (pass.recordFact module c fact).1 = false) : (pass.recordFact module c fact).2 = c := by
  cases fact with
  | call cs =>
    simp only [recordFact] at h ⊢
    unfold Context.addCall at h ⊢
    split at h
    · rfl
    · cases h
  | taken f how =>
    simp only [recordFact] at h ⊢
    split at h
    · exact recordTaken_quiet h
    · rfl
  | evidence f owner field =>
    simp only [recordFact] at h ⊢
    split at h
    · exact updateInfo_quiet (fun fi hfi => guarded_quiet hfi) h
    · rfl
  | published f g =>
    simp only [recordFact] at h ⊢
    split at h
    · exact updateInfo_quiet (fun fi hfi => guarded_quiet hfi) h
    · rfl

end Pass
end CallTargets
