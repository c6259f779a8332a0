import CallTargets.Proofs.Fixpoint.Invariants
import CallTargets.Proofs.Fixpoint.Visits

/-!
# Cancelled runs

A run is compared with the run of the same pass that is never cancelled. When the first one is
cancelled may hang on the state and on all visits so far. Up to that moment both make the same
visits, so a stage either ends the same in both or breaks off in the first one with fewer visits.
The main statement is that cancellation cuts the visits short and changes nothing else.
-/
namespace CallTargets

namespace Driver

variable {σ μ ε : Type}

def cancelledWhen (d : Driver σ μ ε) (stop : σ → Bool) : Driver σ μ ε :=
  { d with cancelled := stop }

abbrev uncancelled (d : Driver σ μ ε) : Driver σ μ ε := d.cancelledWhen fun _ => false

def Extends {α : Type} (short long : List α) : Prop := ∃ a rest, long = short ++ a :: rest

theorem Extends.of_prefix {α : Type} {short long longer : List α} (h : Extends short long)
    (hle : long <+: longer) : Extends short longer := by
  obtain ⟨a, rest, rfl⟩ := h
  obtain ⟨more, rfl⟩ := hle
  exact ⟨a, rest ++ more, by simp⟩

theorem Extends.ne {α : Type} {short long : List α} (h : Extends short long) : short ≠ long := by
  obtain ⟨a, rest, rfl⟩ := h
  simp

theorem Extends.isPrefix {α : Type} {short long : List α} (h : Extends short long) :
    short <+: long := by
  obtain ⟨a, rest, rfl⟩ := h
  exact List.prefix_append _ _

/-! ### Visits are only added -/

theorem noting_grows {log : List (Visit μ ε)} (stage : Stage) (step : μ → σ → Bool × σ) (m : μ)
    (s : σ × List (Visit μ ε)) (h : log <+: s.2) : log <+: (noting stage step m s).2.2 :=
  h.trans (List.prefix_append _ _)

theorem logged_grows (pass : ModulePass σ μ ε) {log : List (Visit μ ε)} (m : μ)
    (s : σ × List (Visit μ ε)) (h : log <+: s.2) : log <+: (pass.logged.analyze m s).2.2 :=
  h.trans (List.prefix_append _ _)

/-! ### Stages -/

variable (d : Driver σ μ ε) (stop : σ × List (Visit μ ε) → Bool)

theorem sweep_truncated (stage : Stage) (step : μ → σ → Bool × σ) (ms : List μ) (changed : Bool)
    (s : σ × List (Visit μ ε)) :
    let cut := (d.logged.cancelledWhen stop).sweep (noting stage step) ms changed s
    let whole := d.logged.uncancelled.sweep (noting stage step) ms changed s
    cut = whole ∨ cut.1 = none ∧ Extends cut.2.2 whole.2.2 := by
  induction ms generalizing changed s with
  | nil => exact .inl rfl
  | cons m ms ih =>
    dsimp only
    rw [sweep, sweep]
    by_cases hstop : stop s = true
    · have hvisit : Extends s.2 (noting stage step m s).2.2 := ⟨_, [], rfl⟩
      have hrest := d.logged.uncancelled.sweep_keeps
        (P := fun t => (noting stage step m s).2.2 <+: t.2)
        (fun m' (_ : m' ∈ ms) t ht => noting_grows stage step m' t ht)
        (changed || (step m s.1).1) (List.prefix_refl _)
      simp only [cancelledWhen, hstop, if_true, true_and]
      exact .inr (hvisit.of_prefix hrest)
    · simp only [cancelledWhen, hstop]
      exact ih _ _

theorem settle_truncated (stage : Stage) (step : μ → σ → Bool × σ) (ms : List μ)
    (s : σ × List (Visit μ ε)) :
    let cut := (d.logged.cancelledWhen stop).settle (noting stage step) ms s
    let whole := d.logged.uncancelled.settle (noting stage step) ms s
    cut = whole ∨ cut.cancelled = true ∧ Extends cut.state.2 whole.state.2 := by
  unfold settle
  generalize maxSettleRounds = left
  generalize 0 = done
  induction left generalizing done s with
  | zero => exact .inl rfl
  | succ left ih =>
    dsimp only
    rw [settleFrom, settleFrom]
    rcases d.sweep_truncated stop stage step ms false s with heq | ⟨hnone, hcut⟩
    · rw [heq]
      generalize d.logged.uncancelled.sweep (noting stage step) ms false s = r
      obtain ⟨result, t⟩ := r
      cases result with
      | none => exact .inl rfl
      | some new =>
        cases new with
        | false => exact .inl rfl
        | true => exact ih t (done + 1)
    · generalize (d.logged.cancelledWhen stop).sweep (noting stage step) ms false s = r at *
      generalize d.logged.uncancelled.sweep (noting stage step) ms false s = r' at *
      obtain ⟨result, t⟩ := r
      obtain ⟨result', t'⟩ := r'
      cases hnone
      refine .inr ⟨rfl, hcut.of_prefix ?_⟩
      cases result' with
      | none => exact List.prefix_refl _
      | some new =>
        cases new with
        | false => exact List.prefix_refl _
        | true =>
          exact d.logged.uncancelled.settleFrom_keeps (P := fun u => t'.2 <+: u.2)
            (fun m _ u hu => noting_grows stage step m u hu) left (done + 1) (List.prefix_refl _)

theorem phaseFrom_truncated (phase total : Nat) (ms : List μ) (index changed : Nat)
    (seen : List Progress) (s : σ × List (Visit μ ε)) :
    let cut := (d.logged.cancelledWhen stop).phaseFrom phase total ms index changed seen s
    let whole := d.logged.uncancelled.phaseFrom phase total ms index changed seen s
    cut = whole ∨ cut.error = some .cancelled ∧ Extends cut.state.2 whole.state.2 := by
  induction ms generalizing index changed seen s with
  | nil => exact .inl rfl
  | cons m ms ih =>
    dsimp only
    rw [phaseFrom, phaseFrom]
    have hvisit : Extends s.2 (d.logged.pass.analyze m s).2.2 := ⟨_, [], rfl⟩
    have hsame : (d.logged.cancelledWhen stop).pass.analyze m s = d.logged.pass.analyze m s := rfl
    have hsame' : d.logged.uncancelled.pass.analyze m s = d.logged.pass.analyze m s := rfl
    rw [hsame, hsame']
    generalize d.logged.pass.analyze m s = r at hvisit
    obtain ⟨answer, t⟩ := r
    by_cases hstop : stop s = true
    · simp only [cancelledWhen, hstop, if_true, true_and]
      refine .inr (hvisit.of_prefix ?_)
      cases answer with
      | error e => exact List.prefix_refl _
      | ok new =>
        exact d.logged.uncancelled.phaseFrom_keeps (P := fun u => t.2 <+: u.2)
          (fun m' _ u hu => logged_grows d.pass m' u hu) _ _ _ _ _ (List.prefix_refl _)
    · simp only [cancelledWhen, hstop]
      cases answer with
      | error e => exact .inl rfl
      | ok new => exact ih _ _ _ t

/-- An outcome is that of the whole run, or the run was cancelled with fewer visits. -/
def Truncates (cut whole : RunOutcome (σ × List (Visit μ ε)) ε) : Prop :=
  cut = whole ∨ cut.error = some .cancelled ∧ Extends cut.state.2 whole.state.2

theorem phasesFrom_truncated (ms : List μ) (left : Nat)
    (out : RunOutcome (σ × List (Visit μ ε)) ε) :
    Truncates ((d.logged.cancelledWhen stop).phasesFrom ms left out)
      (d.logged.uncancelled.phasesFrom ms left out) := by
  induction left generalizing out with
  | zero => exact .inl rfl
  | succ left ih =>
    rw [phasesFrom, phasesFrom]
    rcases d.phaseFrom_truncated stop (out.report.phases + 1) ms.length ms 0 0 [] out.state with
      heq | ⟨herror, hcut⟩
    · rw [heq]
      dsimp only
      split
      · exact .inl rfl
      · split
        · exact .inl rfl
        · exact ih _
    · simp only [Truncates, herror, true_and]
      refine .inr (hcut.of_prefix ?_)
      split
      · exact List.prefix_refl _
      · split
        · exact List.prefix_refl _
        · exact d.logged.uncancelled.phasesFrom_keeps (P := fun u => _ <+: u.2)
            (fun m _ u hu => logged_grows d.pass m u hu) left _ (List.prefix_refl _)

/-! ### Runs -/

/-- The end of a run after its phases: the rounds of finish, unless there was an error. -/
def conclude (d : Driver σ μ ε) (ms : List μ) (out : RunOutcome σ ε) : RunOutcome σ ε :=
  match out.error with
  | some _ => out
  | none =>
    let last := d.settle d.pass.finish ms out.state
    { out with
      state := last.state
      report := { out.report with finalRounds := last.rounds }
      error := if last.cancelled then some .cancelled else none }

def proceed (d : Driver σ μ ε) (ms : List μ) (first : Settled σ) : RunOutcome σ ε :=
  let report := { RunReport.empty with initRounds := first.rounds }
  if first.cancelled then ⟨first.state, report, [], some .cancelled⟩
  else d.conclude ms (d.phasesFrom ms d.cap ⟨first.state, report, [], none⟩)

theorem run_eq_proceed (d : Driver σ μ ε) (ms : List μ) (s : σ) :
    d.run ms s = d.proceed ms (d.settle d.pass.prepare ms s) :=
  rfl

theorem conclude_grows (ms : List μ) (out : RunOutcome (σ × List (Visit μ ε)) ε) :
    out.state.2 <+: (d.logged.conclude ms out).state.2 := by
  unfold conclude
  split
  · exact List.prefix_refl _
  · exact d.logged.settle_state_keeps (P := fun u => out.state.2 <+: u.2)
      (fun m _ u hu => noting_grows .finish d.pass.finish m u hu) (List.prefix_refl _)

theorem proceed_grows (ms : List μ) (first : Settled (σ × List (Visit μ ε))) :
    first.state.2 <+: (d.logged.proceed ms first).state.2 := by
  unfold proceed
  dsimp only
  split
  · exact List.prefix_refl _
  · exact (d.logged.phasesFrom_keeps (P := fun u => first.state.2 <+: u.2)
      (fun m _ u hu => logged_grows d.pass m u hu) _ _ (List.prefix_refl _)).trans
      (d.conclude_grows ms _)

theorem conclude_of_error (ms : List μ) {out : RunOutcome σ ε} {e : RunError ε}
    (h : out.error = some e) : d.conclude ms out = out := by
  unfold conclude
  rw [h]

theorem conclude_truncated (ms : List μ) (out : RunOutcome (σ × List (Visit μ ε)) ε) :
    Truncates ((d.logged.cancelledWhen stop).conclude ms out)
      (d.logged.uncancelled.conclude ms out) := by
  unfold conclude
  split
  · exact .inl rfl
  · rcases d.settle_truncated stop .finish d.pass.finish ms out.state with heq | ⟨hcancelled, hcut⟩
    · refine .inl ?_
      have hfinish : (d.logged.cancelledWhen stop).settle
          (d.logged.cancelledWhen stop).pass.finish ms out.state =
        d.logged.uncancelled.settle d.logged.uncancelled.pass.finish ms out.state := heq
      rw [hfinish]
    · exact .inr ⟨if_pos hcancelled, hcut⟩

theorem proceed_truncated (ms : List μ) (first : Settled (σ × List (Visit μ ε))) :
    Truncates ((d.logged.cancelledWhen stop).proceed ms first)
      (d.logged.uncancelled.proceed ms first) := by
  have hcap : (d.logged.cancelledWhen stop).cap = d.logged.uncancelled.cap := rfl
  unfold proceed
  rw [hcap]
  dsimp only
  split
  · exact .inl rfl
  · rcases d.phasesFrom_truncated stop ms d.logged.uncancelled.cap ⟨first.state,
      { RunReport.empty with initRounds := first.rounds }, [], none⟩ with heq | ⟨herror, hcut⟩
    · rw [heq]
      exact d.conclude_truncated stop ms _
    · rw [conclude_of_error _ ms herror]
      exact .inr ⟨herror, hcut.of_prefix (d.uncancelled.conclude_grows ms _)⟩

/-- A run that may be cancelled goes as the run that is not, or breaks off with fewer visits. -/
theorem run_truncated (ms : List μ) (s : σ × List (Visit μ ε)) :
    Truncates ((d.logged.cancelledWhen stop).run ms s) (d.logged.uncancelled.run ms s) := by
  rw [run_eq_proceed, run_eq_proceed]
  rcases d.settle_truncated stop .prepare d.pass.prepare ms s with heq | ⟨hcancelled, hcut⟩
  · have hprepare : (d.logged.cancelledWhen stop).settle
        (d.logged.cancelledWhen stop).pass.prepare ms s =
      d.logged.uncancelled.settle d.logged.uncancelled.pass.prepare ms s := heq
    rw [hprepare]
    exact d.proceed_truncated stop ms _
  · have hbroken : (d.logged.cancelledWhen stop).proceed ms
        ((d.logged.cancelledWhen stop).settle (noting .prepare d.pass.prepare) ms s) =
      ⟨_, _, [], some .cancelled⟩ := if_pos hcancelled
    refine .inr ⟨congrArg RunOutcome.error hbroken, ?_⟩
    exact (congrArg (fun out => out.state.2) hbroken) ▸
      hcut.of_prefix (d.uncancelled.proceed_grows ms _)

/-! ### Runs without a failure -/

theorem passes_of_ok {d : Driver σ μ ε} (hok : ∀ m s, ∃ new, (d.pass.analyze m s).1 = .ok new)
    (ms : List μ) (s : σ) : d.Passes ms s := by
  induction ms generalizing s with
  | nil => trivial
  | cons m ms ih => exact ⟨hok m s, ih _⟩

theorem phasesFrom_error_of_ok {d : Driver σ μ ε} (hd : ∀ s, d.cancelled s = false)
    (hok : ∀ m s, ∃ new, (d.pass.analyze m s).1 = .ok new) (ms : List μ) (left : Nat)
    (out : RunOutcome σ ε) : (d.phasesFrom ms left out).error = out.error := by
  induction left generalizing out with
  | zero => rfl
  | succ left ih =>
    have herror := (phaseFrom_error_iff hd (out.report.phases + 1) ms.length ms 0 0 [] out.state).mpr
      (passes_of_ok hok ms out.state)
    rw [phasesFrom]
    simp only [herror]
    split
    · rfl
    · exact ih _

theorem run_error_of_ok {d : Driver σ μ ε} (hd : ∀ s, d.cancelled s = false)
    (hok : ∀ m s, ∃ new, (d.pass.analyze m s).1 = .ok new) (ms : List μ) (s : σ) :
    (d.run ms s).error = none := by
  have hlive (step : μ → σ → Bool × σ) (s : σ) : (d.settle step ms s).cancelled = false :=
    (settle_keeps hd (P := fun _ => True) (fun _ _ _ _ => trivial) trivial).2
  simp [run_eq_proceed, proceed, conclude, hlive, phasesFrom_error_of_ok hd hok]

/-- If no step fails, a cancelled run makes a part of the visits of the run that is not cancelled,
from the beginning on. It has an error exactly if visits are missing, and otherwise ends the
same. -/
theorem cancelled_run_cut_short {d : Driver σ μ ε}
    (hok : ∀ m s, ∃ new, (d.pass.analyze m s).1 = .ok new) (ms : List μ) (s : σ)
    (stop : σ × List (Visit μ ε) → Bool) :
    let cut := (d.logged.cancelledWhen stop).run ms (s, [])
    cut.state.2 <+: d.uncancelled.visits ms s ∧
      (cut.error ≠ none ↔ cut.state.2 ≠ d.uncancelled.visits ms s) ∧
      (cut.error = none → cut.map Prod.fst = d.uncancelled.run ms s) := by
  have hwhole : d.uncancelled.visits ms s = (d.logged.uncancelled.run ms (s, [])).state.2 := rfl
  have herror : (d.logged.uncancelled.run ms (s, [])).error = none :=
    run_error_of_ok (fun _ => rfl) (fun m t => hok m t.1) ms (s, [])
  rw [hwhole]
  rcases d.run_truncated stop ms (s, []) with heq | ⟨hcancelled, hcut⟩
  · dsimp only
    rw [heq, herror]
    refine ⟨List.prefix_refl _, by simp, fun _ => ?_⟩
    exact (d.uncancelled.logged_projects.run ms (s, [])).symm
  · refine ⟨hcut.isPrefix, ?_, ?_⟩
    · simp [hcancelled, hcut.ne]
    · intro hnone
      rw [hcancelled] at hnone
      cases hnone

end Driver

/-! ### A run cancelled in its first phase -/

namespace Counting

/-- Reports changes up to the ninth visit, and never fails. -/
def passing : Driver Nat Nat String := driver fun n => .ok (n < 9)

def stopped : RunOutcome (Nat × List (Visit Nat String)) String :=
  (passing.logged.cancelledWhen fun s => 8 ≤ s.2.length).run [0, 1, 2] (0, [])

end Counting

open Counting in
theorem Driver.cancelled_run_cut_short_counting :
    (∀ m n, ∃ new, (passing.pass.analyze m n).1 = .ok new) ∧
      stopped.error = some .cancelled ∧ stopped.report = ⟨2, 0, [], 0⟩ ∧
      stopped.state.2.length = 8 ∧ (passing.uncancelled.visits [0, 1, 2] 0).length = 15 ∧
      stopped.state.2 <+: passing.uncancelled.visits [0, 1, 2] 0 ∧
      stopped.state.2 ≠ passing.uncancelled.visits [0, 1, 2] 0 := by
  have hok : ∀ m n, ∃ new, (passing.pass.analyze m n).1 = .ok new := fun m n => ⟨_, rfl⟩
  have herror : stopped.error = some .cancelled := by decide +kernel
  obtain ⟨hcut, hproper, -⟩ := cancelled_run_cut_short hok [0, 1, 2] 0
    fun s => 8 ≤ s.2.length
  refine ⟨hok, herror, by decide +kernel, by decide +kernel, by decide +kernel, hcut,
    hproper.mp ?_⟩
  exact fun hnone => by cases herror.symm.trans hnone

end CallTargets
