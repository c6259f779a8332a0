import CallTargets.Proofs.Discovery.Order

/-!
# Reports of changes

What an analysis has recorded is a set of entries: the visible types, the exported globals that
modules refer to, the functions whose address is taken with what is known of each, and the indirect
calls. Recording never takes an entry away, and every operation says whether it brought a new one.
Such reports can be chained, so preparing a module reports exactly whether the record grew.
-/
namespace CallTargets

open IR

/-! ### The record -/

inductive Trait where
  | escape (how : Escapes)
  | evidence (disc : Signature)
  | owner (sig : Signature)
  | published (global : ByteString)

/-- What can be recorded. Calls are listed without their targets. -/
inductive Entry where
  | visible (salted : Signature)
  | reference (module global : ByteString)
  | taken (f : FuncId)
  | trait (f : FuncId) (t : Trait)
  | call (cs : CallSite)

def FuncInfo.Has (fi : FuncInfo) : Trait → Prop
  | .escape how => fi.escapes.includes how = true
  | .evidence disc => disc ∈ fi.evidence
  | .owner sig => sig ∈ fi.owners
  | .published global => global ∈ fi.published

def CallSite.bare (cs : CallSite) : CallSite :=
  { cs with layer := .unmatched, callees := [] }

namespace Context

def Has (c : Context) : Entry → Prop
  | .visible salted => salted ∈ c.visible
  | .reference module global => c.references module global = true
  | .taken f => ∃ fi, c.info? f = some fi
  | .trait f t => ∃ fi, c.info? f = some fi ∧ fi.Has t
  | .call cs => ∃ known, c.site? cs.id = some known ∧ known.bare = cs

def record (c : Context) : Set Entry := {e | c.Has e}

structure Extends (c c' : Context) : Prop where
  visible : ∀ salted ∈ c.visible, salted ∈ c'.visible
  refs : ∀ module global, c.references module global = true → c'.references module global = true
  infos : ∀ f fi, c.info? f = some fi → ∃ fi', c'.info? f = some fi' ∧ ∀ t, fi.Has t → fi'.Has t
  sites : ∀ id cs, c.site? id = some cs → ∃ cs', c'.site? id = some cs' ∧ cs'.bare = cs.bare

variable {c c' : Context}

theorem Extends.refl (c : Context) : Extends c c where
  visible _ h := h
  refs _ _ h := h
  infos _ fi h := ⟨fi, h, fun _ ht => ht⟩
  sites _ cs h := ⟨cs, h, rfl⟩

theorem Extends.record_subset (h : Extends c c') : c.record ⊆ c'.record := by
  intro e he
  cases e with
  | visible salted => exact h.visible salted he
  | reference module global => exact h.refs module global he
  | taken f =>
    obtain ⟨fi, hfi⟩ := he
    obtain ⟨fi', hfi', -⟩ := h.infos f fi hfi
    exact ⟨fi', hfi'⟩
  | trait f t =>
    obtain ⟨fi, hfi, ht⟩ := he
    obtain ⟨fi', hfi', hkeep⟩ := h.infos f fi hfi
    exact ⟨fi', hfi', hkeep t ht⟩
  | call cs =>
    obtain ⟨known, hknown, rfl⟩ := he
    obtain ⟨next, hnext, hbare⟩ := h.sites _ known hknown
    exact ⟨next, hnext, hbare⟩

/-! ### Reports -/

/-- An operation adds to the record, and says whether it did. -/
structure Reports (c : Context) (r : Bool × Context) : Prop where
  grows : c.record ⊆ r.2.record
  changed_iff : r.1 = true ↔ r.2.record ≠ c.record

theorem Reports.refl (c : Context) : Reports c (false, c) where
  grows := subset_rfl
  changed_iff := by simp

/-- Two operations in a row change something if one of them does: what the first adds is still there
after the second. -/
theorem Reports.trans {r r' : Bool × Context} (h : Reports c r) (h' : Reports r.2 r') :
    Reports c (r.1 || r'.1, r'.2) where
  grows := h.grows.trans h'.grows
  changed_iff := by
    rw [Bool.or_eq_true, h.changed_iff, h'.changed_iff]
    constructor
    · rintro (hnew | hnew) heq
      · exact hnew (subset_antisymm (heq ▸ h'.grows) h.grows)
      · exact hnew (subset_antisymm (heq ▸ h.grows) h'.grows)
    · intro hnew
      by_cases hfirst : r.2.record = c.record
      · exact .inr fun heq => hnew (heq.trans hfirst)
      · exact .inl hfirst

/-- An operation that leaves the state as it is unless there is something new. -/
theorem Reports.of_new {r : Bool × Context} (hquiet : r.1 = false → r.2 = c)
    (hextends : Extends c r.2) (hnew : r.1 = true → ∃ e, r.2.Has e ∧ ¬ c.Has e) : Reports c r where
  grows := hextends.record_subset
  changed_iff := by
    constructor
    · intro h heq
      obtain ⟨e, he, hnot⟩ := hnew h
      exact hnot (Set.ext_iff.mp heq e |>.mp he)
    · intro hne
      by_contra h
      exact hne (by rw [hquiet (Bool.not_eq_true _ ▸ h)])

theorem Reports.applyAll {α : Type} {f : Context → α → Bool × Context}
    (hf : ∀ c a, Reports c (f c a)) (as : List α) {changed : Bool}
    (h : Reports c (changed, c')) : Reports c (applyAll f as changed c') := by
  induction as generalizing changed c' with
  | nil => exact h
  | cons a as ih => exact ih (h.trans (hf c' a))

/-! ### Operations on the state -/

theorem markVisible_reports (c : Context) (salted : Signature) :
    Reports c (c.markVisible salted) := by
  unfold markVisible
  split
  · exact .refl c
  · next h =>
    refine .of_new (by simp) ?_ fun _ => ⟨.visible salted, by simp [Has], h⟩
    exact { Extends.refl c with visible := fun _ hs => List.mem_append_left _ hs }

theorem markReferenced_reports (c : Context) (module global : ByteString) :
    Reports c (c.markReferenced module global) := by
  have hsteps := c.markReferenced_steps module global
  unfold markReferenced at hsteps ⊢
  split at hsteps
  · next h =>
    rw [if_pos h]
    exact .refl c
  · next h =>
    rw [if_neg h]
    refine .of_new (by simp) ?_ fun _ => ⟨.reference module global, by simp [Has, references], h⟩
    exact { Extends.refl c with refs := fun _ _ hr => hsteps.references hr }

theorem addCall_reports (c : Context) (cs : CallSite) :
    Reports c ((c.addCall cs).1, (c.addCall cs).2.2) := by
  unfold addCall
  split
  · exact .refl c
  · next hnew =>
    refine .of_new (by simp) ?_ fun _ => ⟨.call cs.bare, ⟨cs, Assoc.get?_put_self _ _ _, rfl⟩, ?_⟩
    · refine { Extends.refl c with sites := ?_ }
      intro id known hknown
      have hne : cs.id ≠ id := by
        rintro rfl
        rw [site?, hnew] at hknown
        cases hknown
      exact ⟨known, (Assoc.get?_put_of_ne hne _ _).trans hknown, rfl⟩
    · rintro ⟨known, hknown, -⟩
      rw [site?] at hknown
      exact absurd (hnew.symm.trans hknown) (by simp)

theorem addTaken_reports (c : Context) (fi : FuncInfo) :
    Reports c ((c.addTaken fi).1, (c.addTaken fi).2.2) := by
  unfold addTaken
  split
  · exact .refl c
  · next hnew =>
    refine .of_new (by simp) ?_ fun _ => ⟨.taken fi.id, ⟨fi, Assoc.get?_put_self _ _ _⟩, ?_⟩
    · refine { Extends.refl c with infos := ?_ }
      intro f known hknown
      have hne : fi.id ≠ f := by
        rintro rfl
        rw [info?, hnew] at hknown
        cases hknown
      exact ⟨known, (Assoc.get?_put_of_ne hne _ _).trans hknown, fun _ ht => ht⟩
    · rintro ⟨known, hknown⟩
      rw [info?] at hknown
      exact absurd (hnew.symm.trans hknown) (by simp)

end Context

/-! ### Operations on a function -/

namespace Escapes

theorem includes_union_right (a e : Escapes) : (a.union e).includes e = true := by
  rw [includes, beq_iff_eq, union]
  apply UInt8.toBitVec_inj.mp
  ext i
  simp +contextual

theorem includes_union_left {a b : Escapes} (e : Escapes) (h : a.includes b = true) :
    (a.union e).includes b = true := by
  rw [← union_of_includes h, union_right_comm]
  exact includes_union_right _ b

end Escapes

/-- An operation on a function adds to what is known of it, and says whether it did. -/
structure FuncInfo.Learns (g : FuncInfo → Bool × FuncInfo) : Prop where
  quiet : ∀ fi, (g fi).1 = false → (g fi).2 = fi
  keeps : ∀ fi t, fi.Has t → (g fi).2.Has t
  brings : ∀ fi, (g fi).1 = true → ∃ t, (g fi).2.Has t ∧ ¬ fi.Has t

namespace FuncInfo

theorem learns_markEscape (how : Escapes) : Learns fun fi => fi.markEscape how where
  quiet fi h := Pass.guarded_quiet h
  keeps fi t ht := by
    unfold markEscape
    split
    · exact ht
    · cases t with
      | escape e => exact Escapes.includes_union_left how ht
      | _ => exact ht
  brings fi h := by
    unfold markEscape at h ⊢
    split at h
    · cases h
    · next hnew =>
      rw [if_neg hnew]
      exact ⟨.escape how, fi.escapes.includes_union_right how, hnew⟩

theorem learns_addEvidence (owner : Signature) (field : Int64) :
    Learns fun fi => fi.addEvidence owner field where
  quiet fi h := Pass.guarded_quiet h
  keeps fi t ht := by
    unfold addEvidence
    dsimp only
    split
    · exact ht
    · cases t with
      | evidence disc => exact List.mem_append_left _ ht
      | owner sig =>
        change sig ∈ addNew owner fi.owners
        unfold addNew
        split
        · exact ht
        · exact List.mem_append_left _ ht
      | _ => exact ht
  brings fi h := by
    unfold addEvidence at h ⊢
    dsimp only at h ⊢
    split at h
    · cases h
    · next hnew =>
      rw [if_neg hnew]
      exact ⟨.evidence (Signature.layered owner field), List.mem_append_right _ List.mem_cons_self,
        hnew⟩

theorem learns_publish (global : ByteString) : Learns fun fi => fi.publish global where
  quiet fi h := Pass.guarded_quiet h
  keeps fi t ht := by
    unfold publish
    split
    · exact ht
    · cases t with
      | published g => exact List.mem_append_left _ ht
      | _ => exact ht
  brings fi h := by
    unfold publish at h ⊢
    split at h
    · cases h
    · next hnew =>
      rw [if_neg hnew]
      exact ⟨.published global, List.mem_append_right _ List.mem_cons_self, hnew⟩

end FuncInfo

theorem Context.updateInfo_reports (c : Context) (f : FuncId) {g : FuncInfo → Bool × FuncInfo}
    (hg : FuncInfo.Learns g) : Reports c (c.updateInfo f g) := by
  unfold updateInfo
  split
  · exact .refl c
  · next fi hfi =>
    refine .of_new ?_ ?_ ?_
    · intro h
      simp only [hg.quiet fi h, Assoc.put_of_get? hfi]
    · refine { Extends.refl c with infos := ?_ }
      intro f' known hknown
      by_cases hf : f = f'
      · subst hf
        obtain rfl : fi = known := Option.some.inj (hfi.symm.trans hknown)
        exact ⟨(g fi).2, Assoc.get?_put_self _ _ _, hg.keeps fi⟩
      · exact ⟨known, (Assoc.get?_put_of_ne hf _ _).trans hknown, fun _ ht => ht⟩
    · intro h
      obtain ⟨t, ht, hnot⟩ := hg.brings fi h
      refine ⟨.trait f t, ⟨(g fi).2, Assoc.get?_put_self _ _ _, ht⟩, ?_⟩
      rintro ⟨known, hknown, hhas⟩
      obtain rfl : fi = known := Option.some.inj (hfi.symm.trans hknown)
      exact hnot hhas

namespace Pass

/-! ### Facts and modules -/

theorem enroll_reports (pass : Pass) (c : Context) (s : Symbol) :
    c.Reports (pass.enroll c s) := by
  unfold enroll
  split
  · exact c.addTaken_reports _
  · exact .refl c

theorem recordTaken_reports (pass : Pass) (c : Context) (s : Symbol) (how : Escapes) :
    c.Reports (pass.recordTaken c s how) := by
  rw [recordTaken_eq]
  exact (pass.enroll_reports c s).trans
    (Context.updateInfo_reports _ s.id (FuncInfo.learns_markEscape how))

theorem recordFact_reports (pass : Pass) (module : Nat) (c : Context) (fact : Fact) :
    c.Reports (pass.recordFact module c fact) := by
  cases fact with
  | taken f how =>
    simp only [recordFact]
    split
    · exact pass.recordTaken_reports c _ how
    · exact .refl c
  | evidence f owner field =>
    simp only [recordFact]
    split
    · exact c.updateInfo_reports _ (FuncInfo.learns_addEvidence owner _)
    · exact .refl c
  | published f global =>
    simp only [recordFact]
    split
    · exact c.updateInfo_reports _ (FuncInfo.learns_publish global)
    · exact .refl c
  | call cs => exact c.addCall_reports cs

theorem recordFacts_reports (pass : Pass) (module : Nat) (c : Context) (facts : List Fact) :
    c.Reports (pass.recordFacts module c facts) := by
  rw [recordFacts_eq]
  exact .applyAll (pass.recordFact_reports module) facts (.refl c)

theorem registerVisible_reports (pass : Pass) (path : ByteString) (m : Module) (c : Context) :
    c.Reports (pass.registerVisible path m c) := by
  rw [registerVisible_eq]
  exact .applyAll (fun c g => c.markReferenced_reports path g) _
    (.applyAll (fun c st => c.markVisible_reports _) _ (.refl c))

/-- Scanning a module in which every indirect call has a function type records some facts, without
targets for the calls, and counts the module as scanned. If it was scanned before there are none. -/
theorem discover_of_signed {pass : Pass} {module : Nat} {path : ByteString} {m : Module}
    (hfile : pass.Holds module path m) (hsigned : pass.Signed module) (s : PassState) :
    ∃ facts layouts caches discovered endless, path ∈ discovered ∧
      pass.discover module path m s =
        let found := pass.recordFacts module s.context facts
        (found.1, none, ⟨found.2, layouts, caches, discovered, s.finished, endless⟩) := by
  by_cases hknown : path ∈ s.discovered
  · exact ⟨[], s.layouts, s.caches, s.discovered, s.endless, hknown,
      pass.discover_of_known module m hknown⟩
  · have hfail := (discover_failure hknown).mpr (hsigned path m hfile)
    rw [discover, if_neg hknown] at hfail ⊢
    dsimp only at hfail ⊢
    generalize Scanner.scan _ _ = r at hfail ⊢
    obtain ⟨⟨facts, failure⟩, memory⟩ := r
    cases failure with
    | some f => cases hfail
    | none => exact ⟨facts, _, _, _, _, List.mem_append_right _ List.mem_cons_self, rfl⟩

/-- Preparing a module reports whether the record grew, and leaves nothing to do. -/
theorem prepare_reports {pass : Pass} {i : Nat} (hsigned : pass.Signed i) (s : PassState) :
    s.context.Reports ((pass.prepare i s).1, (pass.prepare i s).2.context) ∧
      pass.prepare i (pass.prepare i s).2 = (false, (pass.prepare i s).2) := by
  obtain ⟨path, m, hfile⟩ | hnot := pass.holds_or_empty i
  · let seen := pass.registerVisible path m s.context
    obtain ⟨facts, layouts, caches, discovered, endless, hpath, hdiscover⟩ :=
      discover_of_signed hfile hsigned { s with context := seen.2 }
    let found := pass.recordFacts i seen.2 facts
    have hprepare : pass.prepare i s =
        (seen.1 || found.1, ⟨found.2, layouts, caches, discovered, s.finished, endless⟩) := by
      simp only [prepare, hfile, seen, found] at hdiscover ⊢
      rw [hdiscover]
    have hseen : pass.Seen path m found.2 :=
      (pass.registerVisible_seen path m s.context).steps (pass.recordFacts_steps i seen.2 facts)
    rw [hprepare]
    refine ⟨(pass.registerVisible_reports path m s.context).trans
      (pass.recordFacts_reports i seen.2 facts), ?_⟩
    simp only [prepare, hfile, registerVisible_of_seen hseen]
    rw [pass.discover_of_known i m hpath]
    rfl
  · rw [prepare_of_empty hnot]
    exact ⟨.refl _, prepare_of_empty hnot s⟩

end Pass
end CallTargets
