import CallTargets.Proofs.Sorting
import CallTargets.Scenario.Difference
import Mathlib.Data.List.TakeWhile

/-!
# Results that a scenario accepts

Expected and reported calls are brought together by a key, the module and the caller with a colon
between them, and of the expectations with one key only the last is compared. The main statement
says which results are accepted in these terms. It follows that the accepted results are those that
match every expectation as long as the keys tell the functions apart and no function has two
expectations that differ. Where two differ, the earlier one is accepted whatever it says.
-/
namespace CallTargets

/-! ### Expectations -/

theorem Text.trim_isEmpty_iff (s : String) :
    (trim s).isEmpty = true ↔ ∀ c ∈ s.toList, isBlank c = true := by
  rw [trim, String.isEmpty_iff, String.ofList_eq_empty_iff, List.reverse_eq_nil_iff,
    List.dropWhile_eq_nil_iff]
  simp only [List.mem_reverse]
  constructor
  · intro h c hc
    rw [← List.takeWhile_append_dropWhile (p := isBlank) (l := s.toList), List.mem_append] at hc
    exact hc.elim List.mem_takeWhile_imp (h c)
  · intro h c hc
    exact h c ((List.dropWhile_suffix isBlank).subset hc)

namespace ExpectedCall

/-- An expectation names its function and one of the two layers. -/
structure Valid (e : ExpectedCall) : Prop where
  caller : ∃ c ∈ e.caller.toList, Text.isBlank c = false
  module : ∃ c ∈ e.module.toList, Text.isBlank c = false
  layer : e.layer = "signature" ∨ e.layer = "field"

/-- A reported call belongs to the function that an expectation names. -/
structure Names (e : ExpectedCall) (a : CallResult) : Prop where
  module : a.module = e.module
  caller : a.caller = e.caller

/-- A reported call has the layer that an expectation asks for and, each as often, the targets. -/
structure Agrees (e : ExpectedCall) (a : CallResult) : Prop where
  layer : e.layer = a.layer.text
  callees : (e.callees.map ByteString.ofText).Perm a.callees

def Counts (e : ExpectedCall) (expected : List ExpectedCall) : Prop :=
  ∃ earlier later, expected = earlier ++ e :: later ∧ ∀ e' ∈ later, e'.key ≠ e.key

theorem Names.key_eq {e : ExpectedCall} {a : CallResult} (h : e.Names a) : a.key = e.key := by
  rw [CallResult.key, key, h.module, h.caller]

theorem valid_iff (e : ExpectedCall) :
    e.Valid ↔ ((Text.trim e.caller).isEmpty || (Text.trim e.module).isEmpty) = false ∧
      ¬ (e.layer ≠ Layer.signature.text ∧ e.layer ≠ Layer.field.text) := by
  have hnamed (s : String) :
      (Text.trim s).isEmpty = false ↔ ∃ c ∈ s.toList, Text.isBlank c = false := by
    rw [← Bool.not_eq_true, Text.trim_isEmpty_iff]
    simp
  rw [Bool.or_eq_false_iff, hnamed, hnamed, not_and_or, not_not, not_not]
  exact ⟨fun h => ⟨⟨h.caller, h.module⟩, h.layer⟩, fun h => ⟨h.1.1, h.1.2, h.2⟩⟩

theorem differences_eq_nil_iff (e : ExpectedCall) (a : CallResult) :
    e.differences a = [] ↔ e.Agrees a := by
  have hsorted : sortedNames (e.callees.map ByteString.ofText) = sortedNames a.callees ↔
      (e.callees.map ByteString.ofText).Perm a.callees :=
    ByteString.before_precedes.sortBy_eq_iff fun _ _ _ _ => ByteString.eq_of_not_before
  rw [differences, List.append_eq_nil_iff]
  constructor
  · rintro ⟨hlayer, hcallees⟩
    exact ⟨by simpa using hlayer, hsorted.mp (by simpa using hcallees)⟩
  · rintro ⟨hlayer, hcallees⟩
    exact ⟨by simp [hlayer], by simp [hsorted.mpr hcallees]⟩

theorem counts_cons {e first : ExpectedCall} {rest : List ExpectedCall} :
    e.Counts (first :: rest) ↔
      e.Counts rest ∨ e = first ∧ ∀ e' ∈ rest, e'.key ≠ first.key := by
  constructor
  · rintro ⟨_ | ⟨_, earlier⟩, later, heq, hlater⟩
    · cases heq
      exact .inr ⟨rfl, hlater⟩
    · cases heq
      exact .inl ⟨earlier, later, rfl, hlater⟩
  · rintro (⟨earlier, later, rfl, hlater⟩ | ⟨rfl, hrest⟩)
    · exact ⟨first :: earlier, later, rfl, hlater⟩
    · exact ⟨[], rest, rfl, hrest⟩

theorem Counts.mem {e : ExpectedCall} {expected : List ExpectedCall} (h : e.Counts expected) :
    e ∈ expected := by
  obtain ⟨earlier, later, rfl, -⟩ := h
  simp

theorem exists_counts {expected : List ExpectedCall} {k : ByteString}
    (h : ∃ e ∈ expected, e.key = k) : ∃ e : ExpectedCall, e.Counts expected ∧ e.key = k := by
  induction expected with
  | nil => simp at h
  | cons first rest ih =>
    by_cases hrest : ∃ e ∈ rest, e.key = k
    · obtain ⟨e, he, hkey⟩ := ih hrest
      exact ⟨e, counts_cons.mpr (.inl he), hkey⟩
    · have hfirst : first.key = k := by simpa [hrest] using h
      refine ⟨first, counts_cons.mpr (.inr ⟨rfl, ?_⟩), hfirst⟩
      intro e he hkey
      exact hrest ⟨e, he, hkey.trans hfirst⟩

/-- Expectations under their keys; a later one takes the place of an earlier one. -/
def byKey (expected : List ExpectedCall) (m : Assoc ByteString ExpectedCall) :
    Assoc ByteString ExpectedCall :=
  expected.foldl (fun m c => m.put c.key c) m

theorem get?_byKey {expected : List ExpectedCall} {m : Assoc ByteString ExpectedCall}
    {k : ByteString} {e : ExpectedCall} :
    (byKey expected m).get? k = some e ↔
      e.Counts expected ∧ e.key = k ∨ (∀ e' ∈ expected, e'.key ≠ k) ∧ m.get? k = some e := by
  induction expected generalizing m with
  | nil => simp [byKey, Counts]
  | cons first rest ih =>
    change (byKey rest (m.put first.key first)).get? k = some e ↔ _
    rw [ih, counts_cons, List.forall_mem_cons, Assoc.get?_put]
    by_cases hfirst : first.key = k
    · subst hfirst
      simp only [if_true, Option.some.injEq, ne_eq, not_true_eq_false, false_and, or_false]
      constructor
      · rintro (⟨he, hkey⟩ | ⟨hrest, rfl⟩)
        · exact ⟨.inl he, hkey⟩
        · exact ⟨.inr ⟨rfl, hrest⟩, rfl⟩
      · rintro ⟨he | ⟨rfl, hrest⟩, hkey⟩
        · exact .inl ⟨he, hkey⟩
        · exact .inr ⟨hrest, rfl⟩
    · simp only [hfirst, if_false, ne_eq, not_false_eq_true, true_and]
      constructor
      · rintro (⟨he, hkey⟩ | hold)
        · exact .inl ⟨.inl he, hkey⟩
        · exact .inr hold
      · rintro (⟨he | ⟨rfl, -⟩, hkey⟩ | hold)
        · exact .inl ⟨he, hkey⟩
        · exact absurd hkey hfirst
        · exact .inr hold

theorem get?_byKey_nil {expected : List ExpectedCall} {k : ByteString} {e : ExpectedCall} :
    (byKey expected []).get? k = some e ↔ e.Counts expected ∧ e.key = k := by
  rw [get?_byKey]
  simp [Assoc.get?]

end ExpectedCall

theorem firstCallError_eq_none_iff (index : Nat) (expected : List ExpectedCall) :
    firstCallError index expected = none ↔ ∀ e ∈ expected, e.Valid := by
  induction expected generalizing index with
  | nil => simp [firstCallError]
  | cons e rest ih =>
    rw [firstCallError, List.forall_mem_cons, e.valid_iff, ← ih (index + 1)]
    split
    · next h => simp [h]
    · next h =>
      split
      · next hlayer => simp [hlayer]
      · next hlayer => simp [h, hlayer]

theorem Assoc.mem_keys {κ α : Type} [DecidableEq κ] {m : Assoc κ α} {k : κ} :
    k ∈ m.keys ↔ ∃ a, m.get? k = some a := by
  induction m with
  | nil => simp [keys, get?]
  | cons p m ih =>
    obtain ⟨k', a⟩ := p
    by_cases hk : k' = k
    · simp [keys, get?, hk]
    · simpa [keys, get?, hk, Ne.symm hk] using ih

/-! ### Acceptance -/

/-- Reported calls are what is expected: every expectation can be used and is about a reported call,
every reported call is expected, and whatever is expected of a call is true of it. -/
structure Matches (expected : List ExpectedCall) (found : List CallResult) : Prop where
  valid : ∀ e ∈ expected, e.Valid
  reported : ∀ e ∈ expected, ∃ a ∈ found, e.Names a
  foreseen : ∀ a ∈ found, ∃ e ∈ expected, e.Names a
  agrees : ∀ e ∈ expected, ∀ a ∈ found, e.Names a → e.Agrees a

/-- The same by keys, where only the last expectation with a key says anything of a call. -/
structure Accepted (expected : List ExpectedCall) (found : List CallResult) : Prop where
  valid : ∀ e ∈ expected, e.Valid
  reported : ∀ e ∈ expected, ∃ a ∈ found, a.key = e.key
  foreseen : ∀ a ∈ found, ∃ e ∈ expected, e.key = a.key
  agrees : ∀ e : ExpectedCall, e.Counts expected → ∀ a ∈ found, a.key = e.key → e.Agrees a

/-- No two expectations of one function differ in what they ask for. -/
def Consistent (expected : List ExpectedCall) : Prop :=
  ∀ e ∈ expected, ∀ e' ∈ expected, e.module = e'.module → e.caller = e'.caller →
    e.layer = e'.layer ∧ e.callees.Perm e'.callees

/-- An expectation and a reported call with one key are about the same function. -/
def KeysTell (expected : List ExpectedCall) (found : List CallResult) : Prop :=
  ∀ e ∈ expected, ∀ a ∈ found, a.key = e.key → e.Names a

section

variable {expected : List ExpectedCall} {found : List CallResult}

theorem mem_expectedKeys {k : ByteString} :
    k ∈ sortedNames (ExpectedCall.byKey expected []).keys ↔ ∃ e ∈ expected, e.key = k := by
  rw [sortedNames, mem_sortBy, Assoc.mem_keys]
  simp only [ExpectedCall.get?_byKey_nil]
  constructor
  · rintro ⟨e, he, hk⟩
    exact ⟨e, he.mem, hk⟩
  · exact ExpectedCall.exists_counts

theorem mem_foundKeys {k : ByteString} :
    k ∈ dropRepeats (sortedNames (found.map CallResult.key)) ↔ ∃ a ∈ found, a.key = k := by
  rw [mem_dropRepeats, sortedNames, mem_sortBy, List.mem_map]

/-- How the calls with a key differ from the expectation that counts for it. -/
def differencesAt (expected : List ExpectedCall) (found : List CallResult) (k : ByteString) :
    List Difference :=
  ((ExpectedCall.byKey expected []).get? k).elim [] fun want =>
    (found.filter fun c => c.key == k).flatMap want.differences

theorem differencesAt_eq_nil_iff :
    (∀ k ∈ sortedNames (ExpectedCall.byKey expected []).keys, differencesAt expected found k = []) ↔
      ∀ e : ExpectedCall, e.Counts expected → ∀ a ∈ found, a.key = e.key → e.Agrees a := by
  constructor
  · intro hall e he a ha hkey
    have hk := hall e.key (mem_expectedKeys.mpr ⟨e, he.mem, rfl⟩)
    rw [differencesAt, ExpectedCall.get?_byKey_nil.mpr ⟨he, rfl⟩, Option.elim_some,
      List.flatMap_eq_nil_iff] at hk
    apply (e.differences_eq_nil_iff a).mp
    exact hk a (List.mem_filter.mpr ⟨ha, by simpa using hkey⟩)
  · intro hall k _
    rw [differencesAt]
    cases hget : (ExpectedCall.byKey expected []).get? k with
    | none => rfl
    | some e =>
      obtain ⟨he, rfl⟩ := ExpectedCall.get?_byKey_nil.mp hget
      apply List.flatMap_eq_nil_iff.mpr
      intro a ha
      obtain ⟨ha, hkey⟩ := List.mem_filter.mp ha
      exact (e.differences_eq_nil_iff a).mpr (hall e he a ha (by simpa using hkey))

/-- Without an expectation that cannot be used there are three kinds of differences. -/
theorem callDifferences_of_valid (h : firstCallError 0 expected = none) :
    callDifferences expected found =
      let keys := sortedNames (ExpectedCall.byKey expected []).keys
      let foundKeys := dropRepeats (sortedNames (found.map CallResult.key))
      ((keys.filter fun k => !foundKeys.contains k).map .missing ++
        (foundKeys.filter fun k => !keys.contains k).map .unexpected) ++
        keys.flatMap (differencesAt expected found) := by
  rw [callDifferences, h]
  dsimp only
  rw [← ExpectedCall.byKey]
  congr 2
  funext k
  rw [differencesAt]
  cases (ExpectedCall.byKey expected []).get? k <;> rfl

theorem callDifferences_eq_nil_iff :
    callDifferences expected found = [] ↔ Accepted expected found := by
  cases herror : firstCallError 0 expected with
  | some e =>
    have hdiff : callDifferences expected found = [.invalid e] := by
      rw [callDifferences, herror]
    refine ⟨fun h => by simp [hdiff] at h, fun h => ?_⟩
    rw [(firstCallError_eq_none_iff 0 expected).mpr h.valid] at herror
    cases herror
  | none =>
    have hvalid := (firstCallError_eq_none_iff 0 expected).mp herror
    rw [callDifferences_of_valid herror]
    simp only [List.append_eq_nil_iff, List.map_eq_nil_iff, List.filter_eq_nil_iff,
      List.flatMap_eq_nil_iff, differencesAt_eq_nil_iff, and_assoc]
    simp only [Bool.not_eq_true', Bool.not_eq_false, List.contains_iff_mem, mem_expectedKeys,
      mem_foundKeys]
    constructor
    · rintro ⟨hmissing, hunexpected, hagrees⟩
      exact ⟨hvalid, fun e he => hmissing e.key ⟨e, he, rfl⟩,
        fun a ha => hunexpected a.key ⟨a, ha, rfl⟩, hagrees⟩
    · intro h
      refine ⟨?_, ?_, h.agrees⟩
      · rintro k ⟨e, he, rfl⟩
        exact h.reported e he
      · rintro k ⟨a, ha, rfl⟩
        exact h.foreseen a ha

/-- Where keys tell functions apart, results match if they are accepted and no function has two
expectations that differ. -/
theorem matches_iff_accepted (hkeys : KeysTell expected found) :
    Matches expected found ↔ Accepted expected found ∧ Consistent expected := by
  constructor
  · intro h
    refine ⟨⟨h.valid, fun e he => ?_, fun a ha => ?_, fun e he a ha hkey => ?_⟩, ?_⟩
    · obtain ⟨a, ha, hnames⟩ := h.reported e he
      exact ⟨a, ha, hnames.key_eq⟩
    · obtain ⟨e, he, hnames⟩ := h.foreseen a ha
      exact ⟨e, he, hnames.key_eq.symm⟩
    · exact h.agrees e he.mem a ha (hkeys e he.mem a ha hkey)
    · -- Both expectations agree with a call that is reported for the function.
      intro e he e' he' hmodule hcaller
      obtain ⟨a, ha, hnames⟩ := h.reported e he
      have hfirst := h.agrees e he a ha hnames
      have hsecond := h.agrees e' he' a ha
        ⟨by rw [hnames.module, hmodule], by rw [hnames.caller, hcaller]⟩
      exact ⟨hfirst.layer.trans hsecond.layer.symm,
        (List.map_perm_map_iff ByteString.ofText_injective).mp
          (hfirst.callees.trans hsecond.callees.symm)⟩
  · rintro ⟨h, hconsistent⟩
    refine ⟨h.valid, fun e he => ?_, fun a ha => ?_, fun e he a ha hnames => ?_⟩
    · obtain ⟨a, ha, hkey⟩ := h.reported e he
      exact ⟨a, ha, hkeys e he a ha hkey⟩
    · obtain ⟨e, he, hkey⟩ := h.foreseen a ha
      exact ⟨e, he, hkeys e he a ha hkey.symm⟩
    · obtain ⟨last, hlast, hkey⟩ := ExpectedCall.exists_counts ⟨e, he, rfl⟩
      have hkey' : a.key = last.key := hnames.key_eq.trans hkey.symm
      have hagrees := h.agrees last hlast a ha hkey'
      have hsame := hkeys last hlast.mem a ha hkey'
      obtain ⟨hlayer, hcallees⟩ := hconsistent e he last hlast.mem
        (ByteString.ofText_injective (hnames.module.symm.trans hsame.module))
        (ByteString.ofText_injective (hnames.caller.symm.trans hsame.caller))
      exact ⟨hlayer.trans hagrees.layer, (hcallees.map _).trans hagrees.callees⟩

theorem cut_at_first {α : Type} {a b c d : List α} {sep : α} (ha : sep ∉ a) (hc : sep ∉ c)
    (h : a ++ sep :: b = c ++ sep :: d) : a = c ∧ b = d := by
  rcases List.append_eq_append_iff.mp h with ⟨_ | ⟨y, ys⟩, rfl, hrest⟩ | ⟨_ | ⟨y, ys⟩, rfl, hrest⟩
  · exact ⟨(List.append_nil a).symm, (List.cons.inj hrest).2⟩
  · cases hrest
    simp at hc
  · exact ⟨List.append_nil c, (List.cons.inj hrest).2.symm⟩
  · cases hrest
    simp at ha

/-- Keys tell functions apart if no module has a colon in its path. -/
theorem keysTell_of_no_colon (hexpected : ∀ e ∈ expected, 0x3A ∉ (ByteString.ofText e.module).bytes)
    (hfound : ∀ a ∈ found, 0x3A ∉ a.module.bytes) : KeysTell expected found := by
  intro e he a ha hkey
  have hcolon : (ByteString.ofText ":").bytes = [0x3A] := by decide +kernel
  have hbytes : a.module.bytes ++ 0x3A :: a.caller.bytes =
      (ByteString.ofText e.module).bytes ++ 0x3A :: (ByteString.ofText e.caller).bytes := by
    have hsplit := congrArg ByteString.bytes hkey
    simpa [CallResult.key, ExpectedCall.key, callKey, hcolon] using hsplit
  obtain ⟨hmodule, hcaller⟩ := cut_at_first (hfound a ha) (hexpected e he) hbytes
  exact ⟨congrArg ByteString.mk hmodule, congrArg ByteString.mk hcaller⟩

end

/-- Results are accepted exactly if, by their keys, they are what the expectations that count ask
for. Where the keys tell functions apart, results that are accepted match every expectation unless
some function has two expectations that differ, and results that match are always accepted. -/
theorem scenario_accepts_iff (expected : List ExpectedCall) (found : List CallResult) :
    (callDifferences expected found = [] ↔ Accepted expected found) ∧
    (KeysTell expected found →
      (Matches expected found ↔ callDifferences expected found = [] ∧ Consistent expected)) := by
  refine ⟨callDifferences_eq_nil_iff, fun hkeys => ?_⟩
  rw [callDifferences_eq_nil_iff]
  exact matches_iff_accepted hkeys

namespace Slips

def reported (module caller : String) : CallResult :=
  ⟨caller, module, .unknown, "", "", .signature, [("target" : ByteString)], []⟩

/-- Two expectations of one function, of which only the second is true. -/
def repeated : List ExpectedCall :=
  [⟨"run", "main", "signature", ["ghost"]⟩, ⟨"run", "main", "signature", ["target"]⟩]

def mistaken : List ExpectedCall := [⟨"y:run", "x", "signature", ["target"]⟩]

end Slips

/-- An expectation that is not met passes if another one follows for its function, and so does one
for a function that makes no call if the key is that of another function. -/
theorem scenario_accepts_iff_slips :
    (KeysTell Slips.repeated [Slips.reported "main" "run"] ∧
      callDifferences Slips.repeated [Slips.reported "main" "run"] = [] ∧
      ¬ Matches Slips.repeated [Slips.reported "main" "run"]) ∧
    callDifferences Slips.mistaken [Slips.reported "x:y" "run"] = [] ∧
      Accepted Slips.mistaken [Slips.reported "x:y" "run"] ∧
      ¬ Matches Slips.mistaken [Slips.reported "x:y" "run"] := by
  have hkeys : KeysTell Slips.repeated [Slips.reported "main" "run"] :=
    keysTell_of_no_colon (by decide +kernel) (by decide +kernel)
  have hnone : callDifferences Slips.repeated [Slips.reported "main" "run"] = [] :=
    List.isEmpty_iff.mp (by decide +kernel)
  have hother : callDifferences Slips.mistaken [Slips.reported "x:y" "run"] = [] :=
    List.isEmpty_iff.mp (by decide +kernel)
  refine ⟨⟨hkeys, hnone, fun h => ?_⟩, hother, (scenario_accepts_iff _ _).1.mp hother, fun h => ?_⟩
  · obtain ⟨-, hconsistent⟩ := ((scenario_accepts_iff _ _).2 hkeys).mp h
    have hghost := (hconsistent _ List.mem_cons_self _ (List.mem_cons_of_mem _ List.mem_cons_self)
      rfl rfl).2
    exact absurd hghost (by decide)
  · obtain ⟨e, he, hnames⟩ := h.foreseen _ List.mem_cons_self
    obtain rfl := List.mem_singleton.mp he
    exact absurd hnames.module (by decide +kernel)

end CallTargets
