import CallTargets.Fixpoint
import Mathlib.Tactic

/-!
# Runs that settle after one visit of every module

A run that is never cancelled is made of visits to all modules in order. If nothing is left to do
once every module was prepared, and nothing once every module was analyzed, the run has an explicit
form: its state is three visits away from the start, and its report counts the changes of the first
round and of the first phase. A module that can never be analyzed makes the run fail.
-/
namespace CallTargets.Driver

variable {σ μ ε : Type}

def visit (step : μ → σ → Bool × σ) (ms : List μ) (s : σ) : σ :=
  ms.foldl (fun s m => (step m s).2) s

def changes (step : μ → σ → Bool × σ) : List μ → σ → Nat
  | [], _ => 0
  | m :: ms, s => (if (step m s).1 then 1 else 0) + changes step ms (step m s).2

def Stable (step : μ → σ → Bool × σ) (ms : List μ) (s : σ) : Prop :=
  ∀ m ∈ ms, step m s = (false, s)

/-- The middle step of the pass, a failure counted as no change. -/
def analyzeStep (d : Driver σ μ ε) (m : μ) (s : σ) : Bool × σ :=
  match d.pass.analyze m s with
  | (.ok new, s) => (new, s)
  | (.error _, s) => (false, s)

def Passes (d : Driver σ μ ε) : List μ → σ → Prop
  | [], _ => True
  | m :: ms, s => (∃ new, (d.pass.analyze m s).1 = .ok new) ∧ Passes d ms (d.analyzeStep m s).2

@[simp] theorem visit_nil (step : μ → σ → Bool × σ) (s : σ) : visit step [] s = s := rfl

@[simp] theorem visit_cons (step : μ → σ → Bool × σ) (m : μ) (ms : List μ) (s : σ) :
    visit step (m :: ms) s = visit step ms (step m s).2 := rfl

theorem visit_keeps {step : μ → σ → Bool × σ} {ms : List μ} {P : σ → Prop}
    (hstep : ∀ m ∈ ms, ∀ s, P s → P (step m s).2) {s : σ} (hs : P s) : P (visit step ms s) := by
  induction ms generalizing s with
  | nil => exact hs
  | cons m ms ih =>
    rw [visit_cons]
    apply ih (fun m' hm' => hstep m' (List.mem_cons_of_mem m hm'))
    exact hstep m List.mem_cons_self s hs

/-- What the step at one of the modules brings about, and every step keeps, holds after a visit. -/
theorem visit_brings {step : μ → σ → Bool × σ} {ms : List μ} {P : σ → Prop}
    (hkeep : ∀ m ∈ ms, ∀ s, P s → P (step m s).2) {m : μ} (hm : m ∈ ms)
    (hbring : ∀ s, P (step m s).2) (s : σ) : P (visit step ms s) := by
  induction ms generalizing s with
  | nil => cases hm
  | cons m' ms ih =>
    have hkeep' : ∀ m ∈ ms, ∀ s, P s → P (step m s).2 :=
      fun m hm => hkeep m (List.mem_cons_of_mem m' hm)
    rw [visit_cons]
    rcases List.mem_cons.mp hm with rfl | hm
    · exact visit_keeps hkeep' (hbring s)
    · exact ih hkeep' hm _

theorem visit_of_stable {step : μ → σ → Bool × σ} {ms : List μ} {s : σ} (h : Stable step ms s) :
    visit step ms s = s := by
  induction ms with
  | nil => rfl
  | cons m ms ih =>
    rw [visit_cons, h m List.mem_cons_self]
    exact ih (fun m' hm' => h m' (List.mem_cons_of_mem m hm'))

theorem changes_of_stable {step : μ → σ → Bool × σ} {ms : List μ} {s : σ} (h : Stable step ms s) :
    changes step ms s = 0 := by
  induction ms with
  | nil => rfl
  | cons m ms ih =>
    rw [changes, h m List.mem_cons_self]
    simpa using ih (fun m' hm' => h m' (List.mem_cons_of_mem m hm'))

theorem sweep_eq {d : Driver σ μ ε} (hd : ∀ s, d.cancelled s = false)
    (step : μ → σ → Bool × σ) (ms : List μ) (changed : Bool) (s : σ) :
    d.sweep step ms changed s =
      (some (changed || decide (changes step ms s ≠ 0)), visit step ms s) := by
  induction ms generalizing changed s with
  | nil => simp [sweep, changes]
  | cons m ms ih =>
    rw [sweep, hd s]
    simp only [Bool.false_eq_true, if_false]
    rw [ih, visit_cons, changes]
    cases (step m s).1 <;> simp

/-- Whatever every step keeps holds when the rounds are over. -/
theorem settle_keeps {d : Driver σ μ ε} (hd : ∀ s, d.cancelled s = false)
    {step : μ → σ → Bool × σ} {ms : List μ} {P : σ → Prop}
    (hstep : ∀ m ∈ ms, ∀ s, P s → P (step m s).2) {s : σ} (hs : P s) :
    P (d.settle step ms s).state ∧ (d.settle step ms s).cancelled = false := by
  unfold settle
  generalize maxSettleRounds = left
  generalize 0 = done
  induction left generalizing done s with
  | zero => exact ⟨hs, rfl⟩
  | succ left ih =>
    have hv := visit_keeps hstep hs
    rw [settleFrom, sweep_eq hd]
    cases decide (changes step ms s ≠ 0) with
    | false => exact ⟨hv, rfl⟩
    | true => exact ih hv (done + 1)

/-- The rounds end with the first that changes nothing, which is the second at the latest. -/
theorem settle_of_stable {d : Driver σ μ ε} (hd : ∀ s, d.cancelled s = false)
    {step : μ → σ → Bool × σ} {ms : List μ} {s : σ} (h : Stable step ms (visit step ms s)) :
    d.settle step ms s =
      ⟨if changes step ms s = 0 then 1 else 2, false, visit step ms s⟩ := by
  have hrounds : maxSettleRounds = 62 + 1 + 1 := rfl
  rw [settle, hrounds, settleFrom, sweep_eq hd]
  by_cases hc : changes step ms s = 0
  · simp [hc]
  · simp only [hc, ne_eq, not_false_eq_true, decide_true, Bool.or_true, if_false]
    rw [settleFrom, sweep_eq hd, changes_of_stable h, visit_of_stable h]
    rfl

/-! ### Phases -/

theorem analyzeStep_of_ok {d : Driver σ μ ε} {m : μ} {s : σ} {new : Bool}
    (h : (d.pass.analyze m s).1 = .ok new) : d.analyzeStep m s = (new, (d.pass.analyze m s).2) := by
  unfold analyzeStep
  split
  · next n t heq =>
    rw [heq] at h
    cases h
    rw [heq]
  · next e t heq =>
    rw [heq] at h
    cases h

/-- A phase has no error exactly when all its visits succeed. -/
theorem phaseFrom_error_iff {d : Driver σ μ ε} (hd : ∀ s, d.cancelled s = false) (phase total : Nat)
    (ms : List μ) (index changed : Nat) (seen : List Progress) (s : σ) :
    (d.phaseFrom phase total ms index changed seen s).error = none ↔ d.Passes ms s := by
  induction ms generalizing index changed seen s with
  | nil => simp [phaseFrom, Passes]
  | cons m ms ih =>
    rw [phaseFrom, hd s]
    simp only [Bool.false_eq_true, if_false, Passes]
    cases ha : d.pass.analyze m s with
    | mk result t =>
      cases result with
      | error e => simp
      | ok new => simp [ih, analyzeStep, ha]

theorem phaseFrom_of_passes {d : Driver σ μ ε} (hd : ∀ s, d.cancelled s = false)
    (phase total : Nat) {ms : List μ} (index changed : Nat) (seen : List Progress) {s : σ}
    (h : d.Passes ms s) :
    (d.phaseFrom phase total ms index changed seen s).state = visit d.analyzeStep ms s ∧
      (d.phaseFrom phase total ms index changed seen s).changed =
        changed + changes d.analyzeStep ms s := by
  induction ms generalizing index changed seen s with
  | nil => exact ⟨rfl, rfl⟩
  | cons m ms ih =>
    obtain ⟨⟨new, hnew⟩, hrest⟩ := h
    have hstep := analyzeStep_of_ok hnew
    cases ha : d.pass.analyze m s with
    | mk result t =>
      rw [ha] at hnew hstep
      cases hnew
      rw [phaseFrom, hd s, ha]
      simp only [Bool.false_eq_true, if_false, visit_cons, changes, hstep]
      rw [hstep] at hrest
      refine ⟨(ih _ _ _ hrest).1, ?_⟩
      rw [(ih _ _ _ hrest).2]
      cases new <;> simp [Nat.add_assoc]

/-- A module that fails in every state of a kept kind lets no phase pass. -/
theorem not_passes_of_failing {d : Driver σ μ ε} {ms : List μ} {P : σ → Prop}
    (hkeep : ∀ m ∈ ms, ∀ s, P s → P (d.analyzeStep m s).2)
    (hfail : ∃ m ∈ ms, ∀ s, P s → ∃ e, (d.pass.analyze m s).1 = .error e) {s : σ} (hs : P s) :
    ¬ d.Passes ms s := by
  induction ms generalizing s with
  | nil =>
    obtain ⟨m, hm, -⟩ := hfail
    cases hm
  | cons m ms ih =>
    rintro ⟨⟨new, hnew⟩, hrest⟩
    obtain ⟨m', hm', hall⟩ := hfail
    rcases List.mem_cons.mp hm' with rfl | hm'
    · obtain ⟨e, he⟩ := hall s hs
      rw [he] at hnew
      cases hnew
    · have hkeep' : ∀ x ∈ ms, ∀ s, P s → P (d.analyzeStep x s).2 := fun x hx =>
        hkeep x (List.mem_cons_of_mem m hx)
      exact ih hkeep' ⟨m', hm', hall⟩ (hkeep m List.mem_cons_self s hs) hrest

theorem passes_of_stable {d : Driver σ μ ε} {ms : List μ} {s : σ}
    (h : ∀ m ∈ ms, d.pass.analyze m s = (.ok false, s)) : d.Passes ms s := by
  induction ms with
  | nil => trivial
  | cons m ms ih =>
    have hm := h m List.mem_cons_self
    refine ⟨⟨false, by rw [hm]⟩, ?_⟩
    rw [analyzeStep, hm]
    exact ih (fun m' hm' => h m' (List.mem_cons_of_mem m hm'))

theorem stable_analyzeStep {d : Driver σ μ ε} {ms : List μ} {s : σ}
    (h : ∀ m ∈ ms, d.pass.analyze m s = (.ok false, s)) : Stable d.analyzeStep ms s := by
  intro m hm
  rw [analyzeStep, h m hm]

/-- The changed modules of each phase: a second one runs if the first changed a module and the cap
allows it. -/
def phaseChanges (cap changed : Nat) : List Nat :=
  if changed = 0 ∨ cap = 1 then [changed] else [changed, 0]

/-- The phases end with the first that changes no module, which is the second at the latest. -/
theorem phasesFrom_of_stable {d : Driver σ μ ε} (hd : ∀ s, d.cancelled s = false) {ms : List μ}
    {cap : Nat} (hcap : 0 < cap) {s : σ} (hpass : d.Passes ms s)
    (hstable : ∀ m ∈ ms, d.pass.analyze m (visit d.analyzeStep ms s) =
      (.ok false, visit d.analyzeStep ms s)) (report : RunReport) (seen : List Progress) :
    let out := d.phasesFrom ms cap ⟨s, report, seen, none⟩
    let counts := phaseChanges cap (changes d.analyzeStep ms s)
    out.error = none ∧ out.state = visit d.analyzeStep ms s ∧
      out.report = { report with
        phases := report.phases + counts.length
        changedPerPhase := report.changedPerPhase ++ counts } := by
  obtain ⟨left, rfl⟩ : ∃ left, cap = left + 1 := ⟨cap - 1, by omega⟩
  have herror (phase total : Nat) := (phaseFrom_error_iff hd phase total ms 0 0 [] s).mpr hpass
  have hfirst (phase total : Nat) := phaseFrom_of_passes hd phase total 0 0 [] hpass
  by_cases hone : changes d.analyzeStep ms s = 0
  · simp [phasesFrom, herror, hfirst, phaseChanges, hone]
  · cases left with
    | zero => simp [phasesFrom, herror, hfirst, phaseChanges, hone]
    | succ left =>
      -- The second phase starts in a state that the pass leaves alone.
      have hpass' := passes_of_stable hstable
      have hcalm := stable_analyzeStep hstable
      have herror' (phase total : Nat) :=
        (phaseFrom_error_iff hd phase total ms 0 0 [] _).mpr hpass'
      have hsecond (phase total : Nat) := phaseFrom_of_passes hd phase total 0 0 [] hpass'
      simp only [visit_of_stable hcalm, changes_of_stable hcalm] at hsecond
      simp [phasesFrom, herror, hfirst, herror', hsecond, phaseChanges, hone]

theorem phasesFrom_error_of_not_passes {d : Driver σ μ ε} (hd : ∀ s, d.cancelled s = false)
    {ms : List μ} {cap : Nat} (hcap : 0 < cap) {s : σ} (hpass : ¬ d.Passes ms s)
    (report : RunReport) (seen : List Progress) :
    (d.phasesFrom ms cap ⟨s, report, seen, none⟩).error ≠ none := by
  obtain ⟨left, rfl⟩ : ∃ left, cap = left + 1 := ⟨cap - 1, by omega⟩
  have herror := (phaseFrom_error_iff hd (report.phases + 1) ms.length ms 0 0 [] s).not.mpr hpass
  rw [phasesFrom]
  cases he : (d.phaseFrom (report.phases + 1) ms.length ms 0 0 [] s).error with
  | none => exact absurd he herror
  | some e => simp

/-! ### Runs -/

def cap (d : Driver σ μ ε) : Nat := (max d.maxPhases 1).toNat

theorem cap_pos (d : Driver σ μ ε) : 0 < d.cap := by
  unfold cap
  omega

/-- The states of a run at the end of its three stages, when nothing is left to do at each end. -/
structure Settles (d : Driver σ μ ε) (ms : List μ) (s prepared analyzed finished : σ) : Prop where
  prepared_eq : visit d.pass.prepare ms s = prepared
  prepare_stable : Stable d.pass.prepare ms prepared
  passes : d.Passes ms prepared
  analyzed_eq : visit d.analyzeStep ms prepared = analyzed
  analyze_stable : ∀ m ∈ ms, d.pass.analyze m analyzed = (.ok false, analyzed)
  finished_eq : visit d.pass.finish ms analyzed = finished
  finish_stable : Stable d.pass.finish ms finished

/-- The rounds for a number of changes: a round that changes something is followed by another. -/
def roundsFor (changed : Nat) : Nat := if changed = 0 then 1 else 2

theorem run_of_settles {d : Driver σ μ ε} (hd : ∀ s, d.cancelled s = false) {ms : List μ}
    {s prepared analyzed finished : σ} (h : d.Settles ms s prepared analyzed finished) :
    let counts := phaseChanges d.cap (changes d.analyzeStep ms prepared)
    (d.run ms s).error = none ∧ (d.run ms s).state = finished ∧
      (d.run ms s).report = ⟨roundsFor (changes d.pass.prepare ms s), counts.length, counts,
        roundsFor (changes d.pass.finish ms analyzed)⟩ := by
  obtain ⟨rfl, hprep, hpass, rfl, hana, rfl, hfin⟩ := h
  have hfirst := settle_of_stable hd hprep
  have hlast := settle_of_stable hd hfin
  have hmid := phasesFrom_of_stable hd d.cap_pos hpass hana
    { RunReport.empty with initRounds := roundsFor (changes d.pass.prepare ms s) } []
  obtain ⟨herror, hstate, hreport⟩ := hmid
  simp only [cap, roundsFor] at herror hstate hreport
  simp only [run, hfirst, Bool.false_eq_true, if_false, herror, hstate, hreport, hlast]
  simp [RunReport.empty, cap, roundsFor]

/-- A run fails if some module cannot be analyzed in any state that the steps lead to. -/
theorem run_error_of_failing {d : Driver σ μ ε} (hd : ∀ s, d.cancelled s = false) {ms : List μ}
    {P : σ → Prop} (hprep : ∀ m ∈ ms, ∀ s, P s → P (d.pass.prepare m s).2)
    (hana : ∀ m ∈ ms, ∀ s, P s → P (d.analyzeStep m s).2)
    (hfail : ∃ m ∈ ms, ∀ s, P s → ∃ e, (d.pass.analyze m s).1 = .error e) {s : σ} (hs : P s) :
    (d.run ms s).error ≠ none := by
  obtain ⟨hP, hcancelled⟩ := settle_keeps hd hprep hs
  have hpass := not_passes_of_failing hana hfail hP
  have herror := phasesFrom_error_of_not_passes hd d.cap_pos hpass
    { RunReport.empty with initRounds := (d.settle d.pass.prepare ms s).rounds } []
  simp only [run, hcancelled, Bool.false_eq_true, if_false]
  cases he : (d.phasesFrom ms d.cap ⟨(d.settle d.pass.prepare ms s).state,
      { RunReport.empty with initRounds := (d.settle d.pass.prepare ms s).rounds }, [],
      none⟩).error with
  | none => exact absurd he herror
  | some e =>
    simp only [cap] at he
    simp [he]

end CallTargets.Driver
