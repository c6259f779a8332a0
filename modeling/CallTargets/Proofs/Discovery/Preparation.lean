import CallTargets.CallGraph.Pass
import CallTargets.Proofs.Context.Indexes
import CallTargets.Proofs.Discovery.Scan
import CallTargets.Proofs.Fixpoint.Rounds

/-!
# Preparing modules

Preparing a module for the first time makes its types visible and records the facts of a scan that
starts with nothing remembered; preparing it again does nothing. So a round of preparation absorbs
the facts of each module once, in the order of the visits, provided that the modules have paths of
their own and every indirect call has a function type.
-/
namespace CallTargets

open IR

/-- Operations in order on the state of an analysis, and whether any of them changed something. -/
def Context.applyAll {α : Type} (f : Context → α → Bool × Context) :
    List α → Bool → Context → Bool × Context
  | [], changed, c => (changed, c)
  | a :: as, changed, c => applyAll f as (changed || (f c a).1) (f c a).2

namespace Context

variable {α : Type} {f : Context → α → Bool × Context}

theorem foldl_eq_applyAll (f : Context → α → Bool × Context) (as : List α) (changed : Bool)
    (c : Context) :
    as.foldl (fun r a => (r.1 || (f r.2 a).1, (f r.2 a).2)) (changed, c) =
      applyAll f as changed c := by
  induction as generalizing changed c with
  | nil => rfl
  | cons a as ih => exact ih _ _

theorem applyAll_keeps {as : List α} {P : Context → Prop} (h : ∀ a ∈ as, ∀ c, P c → P (f c a).2)
    (changed : Bool) {c : Context} (hc : P c) : P (applyAll f as changed c).2 := by
  induction as generalizing changed c with
  | nil => exact hc
  | cons a as ih =>
    apply ih (fun b hb => h b (List.mem_cons_of_mem a hb))
    exact h a List.mem_cons_self c hc

theorem applyAll_steps (h : ∀ c a, Steps c (f c a).2) (as : List α) (changed : Bool)
    (c : Context) : Steps c (applyAll f as changed c).2 :=
  applyAll_keeps (P := fun c' => Steps c c') (fun a _ c' h' => h'.trans (h c' a)) changed .refl

/-- Operations that have nothing to do leave the state as it is. -/
theorem applyAll_of_idle {as : List α} {c : Context} (h : ∀ a ∈ as, f c a = (false, c))
    (changed : Bool) : applyAll f as changed c = (changed, c) := by
  induction as with
  | nil => rfl
  | cons a as ih =>
    rw [applyAll, h a List.mem_cons_self, Bool.or_false]
    exact ih (fun b hb => h b (List.mem_cons_of_mem a hb))

/-- What each operation brings about, and steps keep, holds in the end. -/
theorem applyAll_brings {P : α → Context → Prop} (hsteps : ∀ c a, Steps c (f c a).2)
    (hbrings : ∀ c a, P a (f c a).2) (hkeep : ∀ c c' a, Steps c c' → P a c → P a c')
    (as : List α) (changed : Bool) (c : Context) : ∀ a ∈ as, P a (applyAll f as changed c).2 := by
  induction as generalizing changed c with
  | nil => intro a ha; cases ha
  | cons b as ih =>
    intro a ha
    rcases List.mem_cons.mp ha with rfl | ha
    · exact hkeep _ _ a (applyAll_steps hsteps as _ _) (hbrings c a)
    · exact ih _ _ a ha

end Context

namespace FuncInfo

theorem markEscape_sameFunc (fi : FuncInfo) (e : Escapes) : fi.SameFunc (fi.markEscape e).2 := by
  unfold markEscape
  split <;> constructor <;> rfl

theorem addEvidence_sameFunc (fi : FuncInfo) (owner : Signature) (field : Int64) :
    fi.SameFunc (fi.addEvidence owner field).2 := by
  unfold addEvidence
  dsimp only
  split <;> constructor <;> rfl

theorem publish_sameFunc (fi : FuncInfo) (global : ByteString) :
    fi.SameFunc (fi.publish global).2 := by
  unfold publish
  split <;> constructor <;> rfl

end FuncInfo

namespace Pass

/-! ### Recording -/

/-- The first half of recording a function: it is registered if it is new. -/
def enroll (pass : Pass) (c : Context) (s : Symbol) : Bool × Context :=
  match c.info? s.id, pass.program.func? s.id with
  | none, some f =>
    let r := c.addTaken (.ofSymbol s (pass.program.path s.id.module) (.ofFunc f))
    (r.1, r.2.2)
  | _, _ => (false, c)

theorem recordTaken_eq (pass : Pass) (c : Context) (s : Symbol) (how : Escapes) :
    pass.recordTaken c s how =
      let r := (pass.enroll c s).2.updateInfo s.id fun fi => fi.markEscape how
      ((pass.enroll c s).1 || r.1, r.2) :=
  rfl

theorem enroll_steps (pass : Pass) (c : Context) (s : Symbol) : c.Steps (pass.enroll c s).2 := by
  unfold enroll
  split
  · exact c.addTaken_steps _
  · exact .refl

theorem recordTaken_steps (pass : Pass) (c : Context) (s : Symbol) (how : Escapes) :
    c.Steps (pass.recordTaken c s how).2 := by
  rw [recordTaken_eq]
  exact (pass.enroll_steps c s).trans
    ((pass.enroll c s).2.updateInfo_steps s.id fun fi => fi.markEscape_sameFunc how)

theorem recordFact_steps (pass : Pass) (module : Nat) (c : Context) (fact : Fact) :
    c.Steps (pass.recordFact module c fact).2 := by
  cases fact with
  | taken f how =>
    simp only [recordFact]
    split
    · exact pass.recordTaken_steps c _ how
    · exact .refl
  | evidence f owner field =>
    simp only [recordFact]
    split
    · exact c.updateInfo_steps _ fun fi => fi.addEvidence_sameFunc owner _
    · exact .refl
  | published f global =>
    simp only [recordFact]
    split
    · exact c.updateInfo_steps _ fun fi => fi.publish_sameFunc global
    · exact .refl
  | call cs => exact c.addCall_steps cs

theorem recordFacts_eq (pass : Pass) (module : Nat) (c : Context) (facts : List Fact) :
    pass.recordFacts module c facts = Context.applyAll (pass.recordFact module) facts false c :=
  Context.foldl_eq_applyAll (pass.recordFact module) facts false c

theorem recordFacts_steps (pass : Pass) (module : Nat) (c : Context) (facts : List Fact) :
    c.Steps (pass.recordFacts module c facts).2 := by
  rw [recordFacts_eq]
  exact Context.applyAll_steps (pass.recordFact_steps module) facts false c

/-! ### Visibility -/

def mark (pass : Pass) (path : ByteString) (m : Module) (st : StructTy) : Signature :=
  ((⟨pass.names, m.typeDefs⟩ : TypeView).signature st.toTy).salted path

theorem registerVisible_eq (pass : Pass) (path : ByteString) (m : Module) (c : Context) :
    pass.registerVisible path m c =
      let r := Context.applyAll (fun c st => c.markVisible (pass.mark path m st)) m.structTypes
        false c
      Context.applyAll (fun c g => c.markReferenced path g) m.exportedGlobals r.1 r.2 := by
  simp only [← Context.foldl_eq_applyAll]
  rfl

/-- The struct types and the exported globals of a module are known to be its own. -/
structure Seen (pass : Pass) (path : ByteString) (m : Module) (c : Context) : Prop where
  types : ∀ st ∈ m.structTypes, pass.mark path m st ∈ c.visible
  globals : ∀ g ∈ m.exportedGlobals, c.references path g = true

theorem Seen.steps {pass : Pass} {path : ByteString} {m : Module} {c c' : Context}
    (h : pass.Seen path m c) (hs : c.Steps c') : pass.Seen path m c' where
  types st hst := hs.visible_subset (h.types st hst)
  globals g hg := hs.references (h.globals g hg)

theorem registerVisible_steps (pass : Pass) (path : ByteString) (m : Module) (c : Context) :
    c.Steps (pass.registerVisible path m c).2 := by
  rw [registerVisible_eq]
  exact (Context.applyAll_steps (fun c st => c.markVisible_steps _) _ _ _).trans
    (Context.applyAll_steps (fun c g => c.markReferenced_steps path g) _ _ _)

theorem registerVisible_seen (pass : Pass) (path : ByteString) (m : Module) (c : Context) :
    pass.Seen path m (pass.registerVisible path m c).2 := by
  rw [registerVisible_eq]
  constructor
  · intro st hst
    refine Context.Steps.visible_subset
      (Context.applyAll_steps (fun c g => c.markReferenced_steps path g) _ _ _) ?_
    apply Context.applyAll_brings (P := fun st c => pass.mark path m st ∈ c.visible)
      (fun c st => c.markVisible_steps _) _ (fun c c' st hs h => hs.visible_subset h) _ _ _ st hst
    intro c st
    unfold Context.markVisible
    split
    · next h => exact h
    · exact List.mem_append_right _ List.mem_cons_self
  · apply Context.applyAll_brings (P := fun g c => c.references path g = true)
      (fun c g => c.markReferenced_steps path g) _ (fun c c' g hs h => hs.references h)
    intro c g
    unfold Context.markReferenced
    split
    · next h => exact h
    · simp [Context.references]

theorem registerVisible_of_seen {pass : Pass} {path : ByteString} {m : Module} {c : Context}
    (h : pass.Seen path m c) : pass.registerVisible path m c = (false, c) := by
  have htypes : ∀ st ∈ m.structTypes, c.markVisible (pass.mark path m st) = (false, c) := by
    intro st hst
    rw [Context.markVisible, if_pos (h.types st hst)]
  have hglobals : ∀ g ∈ m.exportedGlobals, c.markReferenced path g = (false, c) := by
    intro g hg
    rw [Context.markReferenced, if_pos (h.globals g hg)]
  rw [registerVisible_eq]
  simp only [Context.applyAll_of_idle (f := fun c st => c.markVisible (pass.mark path m st)) htypes]
  exact Context.applyAll_of_idle (f := fun c g => c.markReferenced path g) hglobals false

/-! ### Discovery -/

def scanner (pass : Pass) (module : Nat) (path : ByteString) (m : Module) : Scanner :=
  ⟨module, path, m, ⟨pass.names, m.typeDefs⟩, ⟨.ofText m.dataLayout, m.typeDefs⟩⟩

def facts (pass : Pass) (module : Nat) : List Fact :=
  match pass.program[module]? with
  | some ⟨path, some m⟩ => (pass.scanner module path m).found .empty
  | _ => []

/-- Whether a first scan of a module of the program comes to a search without an end. -/
def stalls (pass : Pass) (module : Nat) : Bool :=
  match pass.program[module]? with
  | some ⟨path, some m⟩ => (pass.scanner module path m).stalls
  | _ => false

def Signed (pass : Pass) (module : Nat) : Prop :=
  ∀ path m, pass.program[module]? = some ⟨path, some m⟩ → (pass.scanner module path m).Signed

/-- What preparing a module for the first time does to the state of the analysis. -/
def absorb (pass : Pass) (module : Nat) (c : Context) : Bool × Context :=
  match pass.program[module]? with
  | some ⟨path, some m⟩ =>
    let seen := pass.registerVisible path m c
    let found := pass.recordFacts module seen.2 (pass.facts module)
    (seen.1 || found.1, found.2)
  | _ => (false, c)

theorem absorb_steps (pass : Pass) (module : Nat) (c : Context) :
    c.Steps (pass.absorb module c).2 := by
  unfold absorb
  split
  · exact (pass.registerVisible_steps _ _ c).trans (pass.recordFacts_steps module _ _)
  · exact .refl

theorem absorb_seen (pass : Pass) {module : Nat} {path : ByteString} {m : Module}
    (hfile : pass.program[module]? = some ⟨path, some m⟩) (c : Context) :
    pass.Seen path m (pass.absorb module c).2 := by
  simp only [absorb, hfile]
  exact (pass.registerVisible_seen path m c).steps (pass.recordFacts_steps module _ _)

theorem discover_of_known (pass : Pass) (module : Nat) {path : ByteString} (m : Module)
    {s : PassState} (h : path ∈ s.discovered) :
    pass.discover module path m s = (false, none, s) := by
  rw [discover, if_pos h]

/-- Nothing is remembered of a module yet. -/
structure Fresh (module : Nat) (path : ByteString) (s : PassState) : Prop where
  discovered : path ∉ s.discovered
  layouts : s.layouts.get? path = none
  caches : s.caches.get? module = none

theorem discover_of_fresh {pass : Pass} {module : Nat} {path : ByteString} {m : Module}
    {s : PassState} (hfresh : Fresh module path s) (hsigned : (pass.scanner module path m).Signed) :
    ∃ data cache, pass.discover module path m s =
      let found := pass.recordFacts module s.context ((pass.scanner module path m).found .empty)
      (found.1, none, { s with
        layouts := s.layouts.put path data
        caches := s.caches.put module cache
        context := found.2
        discovered := s.discovered ++ [path]
        endless := s.endless || (pass.scanner module path m).stalls }) := by
  refine ⟨.ofText m.dataLayout, ((pass.scanner module path m).scan .empty).2.layouts, ?_⟩
  have hscan := Scanner.scan_of_signed hsigned .empty
  unfold Scanner.stalls
  generalize hr : (pass.scanner module path m).scan .empty = r at hscan ⊢
  unfold scanner Memory.empty at hr
  obtain ⟨scan, memory⟩ := r
  rw [discover, if_neg hfresh.discovered]
  simp only [hfresh.layouts, hfresh.caches, Option.getD_none, hr]
  simp only at hscan
  subst hscan
  rfl

/-- All that a scan does to the state besides recording facts. -/
theorem discover_state (pass : Pass) (module : Nat) {path : ByteString} (m : Module)
    {s : PassState} (h : path ∉ s.discovered) :
    let data := (s.layouts.get? path).getD (.ofText m.dataLayout)
    let sc : Scanner := ⟨module, path, m, ⟨pass.names, m.typeDefs⟩, ⟨data, m.typeDefs⟩⟩
    let memory := (sc.scan ⟨(s.caches.get? module).getD [], false⟩).2
    ∃ context discovered, (discovered = s.discovered ∨ discovered = s.discovered ++ [path]) ∧
      (pass.discover module path m s).2.2 = { s with
        context := context
        layouts := s.layouts.put path data
        caches := s.caches.put module memory.layouts
        discovered := discovered
        endless := s.endless || memory.endless } := by
  dsimp only
  rw [discover, if_neg h]
  dsimp only
  generalize Scanner.scan _ _ = r
  obtain ⟨⟨facts, failure⟩, memory⟩ := r
  cases failure with
  | none => exact ⟨_, _, .inr rfl, rfl⟩
  | some f => exact ⟨_, _, .inl rfl, rfl⟩

/-- A first scan of a module marks the state if it comes to a search without an end. -/
theorem discover_endless (pass : Pass) {module : Nat} {path : ByteString} (m : Module)
    {s : PassState} (hfresh : Fresh module path s) :
    (pass.discover module path m s).2.2.endless =
      (s.endless || (pass.scanner module path m).stalls) := by
  obtain ⟨context, discovered, -, hstate⟩ := pass.discover_state module m hfresh.discovered
  rw [hstate, hfresh.layouts, hfresh.caches]
  rfl

theorem discover_keeps_endless (pass : Pass) (module : Nat) (path : ByteString) (m : Module)
    {s : PassState} (h : s.endless = true) :
    (pass.discover module path m s).2.2.endless = true := by
  by_cases hknown : path ∈ s.discovered
  · rw [pass.discover_of_known module m hknown]
    exact h
  · obtain ⟨context, discovered, -, hstate⟩ := pass.discover_state module m hknown
    simp [hstate, h]

theorem Fresh.discover {pass : Pass} {module i : Nat} {path path' : ByteString} {s : PassState}
    (h : Fresh i path' s) (hmodule : module ≠ i) (hpath : path ≠ path') (m : Module) :
    Fresh i path' (pass.discover module path m s).2.2 := by
  by_cases hknown : path ∈ s.discovered
  · rw [pass.discover_of_known module m hknown]
    exact h
  · obtain ⟨context, discovered, hdiscovered, hstate⟩ := pass.discover_state module m hknown
    rw [hstate]
    refine ⟨?_, ?_, ?_⟩
    · rcases hdiscovered with rfl | rfl
      · exact h.discovered
      · simp [h.discovered, Ne.symm hpath]
    · rw [Assoc.get?_put_of_ne hpath]
      exact h.layouts
    · rw [Assoc.get?_put_of_ne hmodule]
      exact h.caches

/-- A scan of a new module reports a failure exactly when some indirect call has no function
type. -/
theorem discover_failure {pass : Pass} {module : Nat} {path : ByteString} {m : Module}
    {s : PassState} (h : path ∉ s.discovered) :
    (pass.discover module path m s).2.1 = none ↔ (pass.scanner module path m).Signed := by
  rw [discover, if_neg h]
  dsimp only
  generalize (s.layouts.get? path).getD (.ofText m.dataLayout) = data
  generalize (s.caches.get? module).getD [] = cache
  -- Whether a call has a function type does not hang on the layout.
  have hfail : (Scanner.scan ⟨module, path, m, ⟨pass.names, m.typeDefs⟩, ⟨data, m.typeDefs⟩⟩
      ⟨cache, false⟩).1.failure = none ↔ (pass.scanner module path m).Signed :=
    Scanner.scan_failure_eq_none _ _
  generalize Scanner.scan _ ⟨cache, false⟩ = r at hfail ⊢
  obtain ⟨⟨facts, failure⟩, memory⟩ := r
  cases failure with
  | none => simpa using hfail
  | some f => simpa using hfail

theorem discover_discovered (pass : Pass) (module : Nat) (path : ByteString) (m : Module)
    (s : PassState) :
    (pass.discover module path m s).2.2.discovered = s.discovered ∨
      (pass.discover module path m s).2.2.discovered = s.discovered ++ [path] ∧
        path ∉ s.discovered ∧ (pass.discover module path m s).2.1 = none := by
  unfold discover
  split
  · exact .inl rfl
  · next h =>
    dsimp only
    generalize Scanner.scan _ _ = r
    obtain ⟨⟨facts, failure⟩, memory⟩ := r
    cases failure with
    | none => exact .inr ⟨rfl, h, rfl⟩
    | some f => exact .inl rfl

/-! ### Rounds of preparation -/

/-- A module of the program that has a content, with its path. -/
abbrev Holds (pass : Pass) (module : Nat) (path : ByteString) (m : Module) : Prop :=
  pass.program[module]? = some ⟨path, some m⟩

/-- A module of the program that has a content under the path. -/
def Hosts (pass : Pass) (module : Nat) (path : ByteString) : Prop :=
  ∃ m, pass.Holds module path m

abbrev DistinctPaths (pass : Pass) : Prop := (pass.program.map ModuleFile.path).Nodup

theorem holds_or_empty (pass : Pass) (i : Nat) :
    (∃ path m, pass.Holds i path m) ∨ ∀ path m, ¬ pass.Holds i path m := by
  by_cases h : ∃ path m, pass.Holds i path m
  · exact .inl h
  · exact .inr (by simpa using h)

theorem Holds.file_eq {pass : Pass} {i : Nat} {path path' : ByteString} {m m' : Module}
    (h : pass.Holds i path m) (h' : pass.Holds i path' m') : path = path' ∧ m = m' := by
  have heq : some (⟨path, some m⟩ : ModuleFile) = some ⟨path', some m'⟩ := h.symm.trans h'
  cases heq
  exact ⟨rfl, rfl⟩

theorem Holds.module_eq {pass : Pass} {i j : Nat} {path : ByteString} {m n : Module}
    (hi : pass.Holds i path m) (hj : pass.Holds j path n) (hpaths : pass.DistinctPaths) :
    i = j := by
  obtain ⟨hlt, -⟩ := List.getElem?_eq_some_iff.mp hi
  apply (List.getElem?_inj (by simpa using hlt) hpaths).mp
  rw [List.getElem?_map, List.getElem?_map, hi, hj]
  rfl

/-- Besides the records, preparing a module changes nothing but what its scan changes. -/
theorem prepare_keeps {pass : Pass} {i : Nat} {P : PassState → Prop}
    (hrecords : ∀ s c, P s → P { s with context := c })
    (hscan : ∀ path m, pass.Holds i path m → ∀ s, P s → P (pass.discover i path m s).2.2)
    {s : PassState} (h : P s) : P (pass.prepare i s).2 := by
  unfold prepare
  split
  · next path m hfile => exact hscan path m hfile _ (hrecords s _ h)
  · exact h

theorem analyze_keeps {pass : Pass} {i : Nat} {P : PassState → Prop}
    (hrecords : ∀ s c, P s → P { s with context := c })
    (hscan : ∀ path m, pass.Holds i path m → ∀ s, P s → P (pass.discover i path m s).2.2)
    {s : PassState} (h : P s) : P (pass.analyze i s).2 := by
  unfold analyze
  split
  · next path m hfile =>
    have hd := hscan path m hfile s h
    generalize pass.discover i path m s = r at hd ⊢
    obtain ⟨found, failure, t⟩ := r
    cases failure with
    | none => exact hrecords _ _ hd
    | some e => exact hd
  · exact h

theorem Fresh.prepare {pass : Pass} (hpaths : pass.DistinctPaths) {i j : Nat} {path : ByteString}
    {m : Module} (hfile : pass.Holds i path m) {s : PassState} (h : Fresh i path s) (hij : j ≠ i) :
    Fresh i path (pass.prepare j s).2 := by
  apply prepare_keeps (fun _ _ h => ⟨h.discovered, h.layouts, h.caches⟩) _ h
  intro path' m' hfile' s h
  have hpath : path' ≠ path := by
    rintro rfl
    exact hij (Holds.module_eq hfile' hfile hpaths)
  exact h.discover hij hpath m'

theorem prepare_of_fresh {pass : Pass} {module : Nat} {path : ByteString} {m : Module}
    (hfile : pass.Holds module path m) {s : PassState} (hfresh : Fresh module path s)
    (hsigned : pass.Signed module) :
    ∃ data cache, pass.prepare module s =
      ((pass.absorb module s.context).1, { s with
        layouts := s.layouts.put path data
        caches := s.caches.put module cache
        context := (pass.absorb module s.context).2
        discovered := s.discovered ++ [path]
        endless := s.endless || pass.stalls module }) := by
  have hfacts : pass.facts module = (pass.scanner module path m).found .empty := by
    simp only [facts, hfile]
  have hstalls : pass.stalls module = (pass.scanner module path m).stalls := by
    simp only [stalls, hfile]
  let s' : PassState := { s with context := (pass.registerVisible path m s.context).2 }
  have hfresh' : Fresh module path s' := ⟨hfresh.discovered, hfresh.layouts, hfresh.caches⟩
  obtain ⟨data, cache, hd⟩ := discover_of_fresh hfresh' (hsigned path m hfile)
  refine ⟨data, cache, ?_⟩
  simp only [prepare, hfile, absorb, hfacts, hstalls]
  rw [hd]

/-- Every module with a content was scanned to its end, and what it can see is known. -/
structure Known (pass : Pass) (ms : List Nat) (s : PassState) : Prop where
  discovered : ∀ i ∈ ms, ∀ path m, pass.Holds i path m → path ∈ s.discovered
  seen : ∀ i ∈ ms, ∀ path m, pass.Holds i path m → pass.Seen path m s.context

theorem prepare_of_empty {pass : Pass} {module : Nat} (h : ∀ path m, ¬ pass.Holds module path m)
    (s : PassState) : pass.prepare module s = (false, s) := by
  unfold prepare
  split
  · next path m hfile => exact absurd hfile (h path m)
  · rfl

theorem analyze_of_empty {pass : Pass} {module : Nat} (h : ∀ path m, ¬ pass.Holds module path m)
    (s : PassState) : pass.analyze module s = (.ok false, s) := by
  unfold analyze
  split
  · next path m hfile => exact absurd hfile (h path m)
  · rfl

theorem absorb_of_empty {pass : Pass} {module : Nat} (h : ∀ path m, ¬ pass.Holds module path m)
    (c : Context) : pass.absorb module c = (false, c) := by
  unfold absorb
  split
  · next path m hfile => exact absurd hfile (h path m)
  · rfl

theorem stalls_of_empty {pass : Pass} {module : Nat} (h : ∀ path m, ¬ pass.Holds module path m) :
    pass.stalls module = false := by
  unfold stalls
  split
  · next path m hfile => exact absurd hfile (h path m)
  · rfl

theorem Known.prepare_stable {pass : Pass} {ms : List Nat} {s : PassState} (h : pass.Known ms s) :
    Driver.Stable pass.prepare ms s := by
  intro i hi
  obtain ⟨path, m, hfile⟩ | hnot := pass.holds_or_empty i
  · simp only [prepare, hfile, registerVisible_of_seen (h.seen i hi path m hfile)]
    rw [pass.discover_of_known i m (h.discovered i hi path m hfile)]
    rfl
  · exact prepare_of_empty hnot s

/-- A round over new modules absorbs each of them in the order of the visits. -/
theorem visit_prepare {pass : Pass} (hpaths : pass.DistinctPaths) {ms : List Nat} (hms : ms.Nodup)
    (hsigned : ∀ i ∈ ms, pass.Signed i) {s : PassState}
    (hfresh : ∀ i ∈ ms, ∀ path m, pass.Holds i path m → Fresh i path s) :
    (Driver.visit pass.prepare ms s).context = Driver.visit pass.absorb ms s.context ∧
      (Driver.visit pass.prepare ms s).finished = s.finished ∧
      (Driver.visit pass.prepare ms s).endless = (s.endless || ms.any pass.stalls) ∧
      Driver.changes pass.prepare ms s = Driver.changes pass.absorb ms s.context ∧
      s.discovered ⊆ (Driver.visit pass.prepare ms s).discovered ∧
      ∀ i ∈ ms, ∀ path m, pass.Holds i path m →
        path ∈ (Driver.visit pass.prepare ms s).discovered := by
  induction ms generalizing s with
  | nil => exact ⟨rfl, rfl, by simp, rfl, fun _ h => h, fun i hi => by cases hi⟩
  | cons i ms ih =>
    obtain ⟨hi, hms⟩ := List.nodup_cons.mp hms
    have hsigned' : ∀ j ∈ ms, pass.Signed j := fun j hj => hsigned j (List.mem_cons_of_mem i hj)
    obtain ⟨path, m, hfile⟩ | hnot := pass.holds_or_empty i
    · obtain ⟨data, cache, hprep⟩ := prepare_of_fresh hfile
        (hfresh i List.mem_cons_self path m hfile) (hsigned i List.mem_cons_self)
      have hstill : ∀ j ∈ ms, ∀ path' m', pass.Holds j path' m' →
          Fresh j path' (pass.prepare i s).2 := by
        intro j hj path' m' hfile'
        refine (hfresh j (List.mem_cons_of_mem i hj) path' m' hfile').prepare hpaths hfile' ?_
        rintro rfl
        exact hi hj
      obtain ⟨hcontext, hfinished, hendless, hchanges, hsub, hknown⟩ := ih hms hsigned' hstill
      simp only [Driver.visit_cons, Driver.changes, hprep]
        at hcontext hfinished hendless hchanges hsub hknown ⊢
      refine ⟨hcontext, hfinished, by rw [hendless, List.any_cons, Bool.or_assoc],
        by rw [hchanges], ?_, ?_⟩
      · exact fun p hp => hsub (List.mem_append_left _ hp)
      · intro j hj path' m' hfile'
        rcases List.mem_cons.mp hj with rfl | hj
        · obtain ⟨rfl, rfl⟩ := hfile.file_eq hfile'
          exact hsub (List.mem_append_right _ List.mem_cons_self)
        · exact hknown j hj path' m' hfile'
    · obtain ⟨hcontext, hfinished, hendless, hchanges, hsub, hknown⟩ := ih hms hsigned'
        fun j hj => hfresh j (List.mem_cons_of_mem i hj)
      simp only [Driver.visit_cons, Driver.changes, prepare_of_empty hnot, absorb_of_empty hnot]
      refine ⟨hcontext, hfinished, by rw [hendless, List.any_cons, stalls_of_empty hnot,
        Bool.false_or], by rw [hchanges], hsub, ?_⟩
      intro j hj path' m' hfile'
      rcases List.mem_cons.mp hj with rfl | hj
      · exact absurd hfile' (hnot path' m')
      · exact hknown j hj path' m' hfile'

theorem visit_absorb_steps (pass : Pass) (ms : List Nat) (c : Context) :
    c.Steps (Driver.visit pass.absorb ms c) :=
  Driver.visit_keeps (P := fun c' => c.Steps c') (fun i _ c' h => h.trans (pass.absorb_steps i c'))
    .refl

theorem visit_absorb_seen (pass : Pass) (ms : List Nat) (c : Context) :
    ∀ i ∈ ms, ∀ path m, pass.Holds i path m →
      pass.Seen path m (Driver.visit pass.absorb ms c) := by
  induction ms generalizing c with
  | nil => intro i hi; cases hi
  | cons j ms ih =>
    intro i hi path m hfile
    rcases List.mem_cons.mp hi with rfl | hi
    · exact (pass.absorb_seen hfile c).steps (pass.visit_absorb_steps ms _)
    · exact ih _ i hi path m hfile

theorem start_fresh (pass : Pass) (config : Config) (module : Nat) (path : ByteString) :
    Fresh module path (pass.start config) :=
  ⟨List.not_mem_nil, rfl, rfl⟩

/-- The first round absorbs every module, and knows them all afterwards. -/
theorem start_known {pass : Pass} (hpaths : pass.DistinctPaths) {ms : List Nat} (hms : ms.Nodup)
    (hsigned : ∀ i ∈ ms, pass.Signed i) (config : Config) :
    pass.Known ms (Driver.visit pass.prepare ms (pass.start config)) := by
  obtain ⟨hcontext, -, -, -, -, hknown⟩ := visit_prepare hpaths hms hsigned
    (s := pass.start config) fun i _ path m _ => pass.start_fresh config i path
  refine ⟨hknown, ?_⟩
  rw [hcontext]
  exact pass.visit_absorb_seen ms _

/-! ### Modules that cannot be scanned -/

/-- Only modules whose indirect calls all have a function type count as scanned. -/
def Honest (pass : Pass) (s : PassState) : Prop :=
  ∀ path ∈ s.discovered, ∃ i m, pass.Holds i path m ∧ (pass.scanner i path m).Signed

theorem discover_honest {pass : Pass} {module : Nat} {path : ByteString} {m : Module}
    (hfile : pass.Holds module path m) {s : PassState} (h : pass.Honest s) :
    pass.Honest (pass.discover module path m s).2.2 := by
  unfold Honest
  rcases pass.discover_discovered module path m s with heq | ⟨heq, hnew, hok⟩
  · rw [heq]
    exact h
  · rw [heq]
    intro p hp
    rcases List.mem_append.mp hp with hp | hp
    · exact h p hp
    · rw [List.mem_singleton] at hp
      subst hp
      exact ⟨module, m, hfile, (discover_failure hnew).mp hok⟩

theorem prepare_honest (pass : Pass) (module : Nat) {s : PassState} (h : pass.Honest s) :
    pass.Honest (pass.prepare module s).2 :=
  prepare_keeps (fun _ _ h => h) (fun _ _ hfile _ h => discover_honest hfile h) h

theorem analyze_honest (pass : Pass) (module : Nat) {s : PassState} (h : pass.Honest s) :
    pass.Honest (pass.analyze module s).2 :=
  analyze_keeps (fun _ _ h => h) (fun _ _ hfile _ h => discover_honest hfile h) h

/-- A module with an indirect call of unknown type cannot be analyzed. -/
theorem analyze_error {pass : Pass} (hpaths : pass.DistinctPaths) {module : Nat}
    {path : ByteString} {m : Module} (hfile : pass.Holds module path m)
    (hunsigned : ¬ (pass.scanner module path m).Signed) {s : PassState} (h : pass.Honest s) :
    ∃ e, (pass.analyze module s).1 = .error e := by
  have hnew : path ∉ s.discovered := by
    intro hp
    obtain ⟨j, n, hj, hsigned⟩ := h path hp
    obtain rfl := hj.module_eq hfile hpaths
    obtain ⟨-, rfl⟩ := hj.file_eq hfile
    exact hunsigned hsigned
  have hfail := (discover_failure hnew).not.mpr hunsigned
  simp only [analyze, hfile]
  generalize pass.discover module path m s = r at hfail ⊢
  obtain ⟨found, failure, t⟩ := r
  cases failure with
  | none => exact absurd rfl hfail
  | some e => exact ⟨e, rfl⟩

end Pass
end CallTargets
