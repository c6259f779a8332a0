import CallTargets.Proofs.Fixpoint.Rounds

/-!
# What a run keeps

A property of states that every step keeps holds at the end of a run, however the run ends: after
the last round, at a module that fails, or where it was cancelled. If the modules up to some point
can be analyzed in every such state and the next one cannot, that is where the run fails.
-/
namespace CallTargets.Driver

variable {σ μ ε : Type}

/-- Every step on one of the modules keeps a property of states. -/
structure Keeps (d : Driver σ μ ε) (ms : List μ) (P : σ → Prop) : Prop where
  prepare : ∀ m ∈ ms, ∀ s, P s → P (d.pass.prepare m s).2
  analyze : ∀ m ∈ ms, ∀ s, P s → P (d.pass.analyze m s).2
  finish : ∀ m ∈ ms, ∀ s, P s → P (d.pass.finish m s).2

/-! ### Stages -/

theorem sweep_keeps (d : Driver σ μ ε) {step : μ → σ → Bool × σ} {ms : List μ} {P : σ → Prop}
    (hstep : ∀ m ∈ ms, ∀ s, P s → P (step m s).2) (changed : Bool) {s : σ} (hs : P s) :
    P (d.sweep step ms changed s).2 := by
  induction ms generalizing changed s with
  | nil => exact hs
  | cons m ms ih =>
    rw [sweep]
    split
    · exact hs
    · exact ih (fun m' hm' => hstep m' (List.mem_cons_of_mem m hm')) _
        (hstep m List.mem_cons_self s hs)

theorem settleFrom_keeps (d : Driver σ μ ε) {step : μ → σ → Bool × σ} {ms : List μ}
    {P : σ → Prop} (hstep : ∀ m ∈ ms, ∀ s, P s → P (step m s).2) (left done : Nat) {s : σ}
    (hs : P s) : P (d.settleFrom step ms left done s).state := by
  induction left generalizing done s with
  | zero => exact hs
  | succ left ih =>
    have hsweep := d.sweep_keeps hstep false hs
    rw [settleFrom]
    generalize d.sweep step ms false s = r at hsweep ⊢
    obtain ⟨result, t⟩ := r
    cases result with
    | none => exact hsweep
    | some new =>
      cases new with
      | false => exact hsweep
      | true => exact ih (done + 1) hsweep

/-- Rounds keep what every step keeps, also when they are cancelled. -/
theorem settle_state_keeps (d : Driver σ μ ε) {step : μ → σ → Bool × σ} {ms : List μ}
    {P : σ → Prop} (hstep : ∀ m ∈ ms, ∀ s, P s → P (step m s).2) {s : σ} (hs : P s) :
    P (d.settle step ms s).state :=
  d.settleFrom_keeps hstep maxSettleRounds 0 hs

/-- The first of the rounds visits every module, and the others keep what it brings about. -/
theorem settle_of_visit {d : Driver σ μ ε} (hd : ∀ s, d.cancelled s = false)
    {step : μ → σ → Bool × σ} {ms : List μ} {P : σ → Prop}
    (hkeep : ∀ m ∈ ms, ∀ s, P s → P (step m s).2) {s : σ} (hvisit : P (visit step ms s)) :
    P (d.settle step ms s).state := by
  have hrounds : maxSettleRounds = 63 + 1 := rfl
  rw [settle, hrounds, settleFrom, sweep_eq hd]
  cases decide (changes step ms s ≠ 0) with
  | false => exact hvisit
  | true => exact d.settleFrom_keeps hkeep 63 (0 + 1) hvisit

theorem phaseFrom_keeps (d : Driver σ μ ε) {ms : List μ} {P : σ → Prop}
    (hana : ∀ m ∈ ms, ∀ s, P s → P (d.pass.analyze m s).2) (phase total index changed : Nat)
    (seen : List Progress) {s : σ} (hs : P s) :
    P (d.phaseFrom phase total ms index changed seen s).state := by
  induction ms generalizing index changed seen s with
  | nil => exact hs
  | cons m ms ih =>
    have hm := hana m List.mem_cons_self s hs
    rw [phaseFrom]
    split
    · exact hs
    · generalize d.pass.analyze m s = r at hm ⊢
      obtain ⟨result, t⟩ := r
      cases result with
      | error e => exact hm
      | ok new => exact ih (fun m' hm' => hana m' (List.mem_cons_of_mem m hm')) _ _ _ hm

theorem phasesFrom_keeps (d : Driver σ μ ε) {ms : List μ} {P : σ → Prop}
    (hana : ∀ m ∈ ms, ∀ s, P s → P (d.pass.analyze m s).2) (left : Nat) (out : RunOutcome σ ε)
    (hs : P out.state) : P (d.phasesFrom ms left out).state := by
  induction left generalizing out with
  | zero => exact hs
  | succ left ih =>
    have hphase := d.phaseFrom_keeps hana (out.report.phases + 1) ms.length 0 0 [] hs
    rw [phasesFrom]
    dsimp only
    split
    · exact hphase
    · split
      · exact hphase
      · exact ih _ hphase

/-- What holds when the modules are prepared, and every later step keeps, holds at the end of a
run. -/
theorem run_keeps_prepared {d : Driver σ μ ε} {ms : List μ} {P : σ → Prop}
    (hanalyze : ∀ m ∈ ms, ∀ s, P s → P (d.pass.analyze m s).2)
    (hfinish : ∀ m ∈ ms, ∀ s, P s → P (d.pass.finish m s).2) {s : σ}
    (hs : P (d.settle d.pass.prepare ms s).state) : P (d.run ms s).state := by
  unfold Driver.run
  dsimp only
  split
  · exact hs
  · split
    · exact d.phasesFrom_keeps hanalyze _ _ hs
    · exact d.settle_state_keeps hfinish (d.phasesFrom_keeps hanalyze _ _ hs)

/-- What every step keeps holds at the end of a run, however it ends. -/
theorem Keeps.run {d : Driver σ μ ε} {ms : List μ} {P : σ → Prop} (h : d.Keeps ms P) {s : σ}
    (hs : P s) : P (d.run ms s).state :=
  run_keeps_prepared h.analyze h.finish (d.settle_state_keeps h.prepare hs)

/-! ### The first module that fails -/

theorem phaseFrom_failure {d : Driver σ μ ε} (hd : ∀ s, d.cancelled s = false)
    {before : List μ} {m : μ} (after : List μ) {P : σ → Prop} {e : ε}
    (hkeep : ∀ m' ∈ before, ∀ s, P s → P (d.pass.analyze m' s).2)
    (hok : ∀ m' ∈ before, ∀ s, P s → ∃ new, (d.pass.analyze m' s).1 = .ok new)
    (hfail : ∀ s, P s → (d.pass.analyze m s).1 = .error e) (phase total index changed : Nat)
    (seen : List Progress) {s : σ} (hs : P s) :
    (d.phaseFrom phase total (before ++ m :: after) index changed seen s).error =
      some (.failed phase (d.path m) e) := by
  induction before generalizing index changed seen s with
  | nil =>
    have hm := hfail s hs
    rw [List.nil_append, phaseFrom, hd s]
    generalize d.pass.analyze m s = r at hm ⊢
    obtain ⟨result, t⟩ := r
    cases hm
    rfl
  | cons a before ih =>
    obtain ⟨new, hnew⟩ := hok a List.mem_cons_self s hs
    have ha := hkeep a List.mem_cons_self s hs
    rw [List.cons_append, phaseFrom, hd s]
    generalize d.pass.analyze a s = r at hnew ha ⊢
    obtain ⟨result, t⟩ := r
    cases hnew
    exact ih (fun m' hm' => hkeep m' (List.mem_cons_of_mem a hm'))
      (fun m' hm' => hok m' (List.mem_cons_of_mem a hm')) _ _ _ ha

/-- A run fails in its first phase at the first module that cannot be analyzed. No final round
follows. -/
theorem run_failure {d : Driver σ μ ε} (hd : ∀ s, d.cancelled s = false) {before after : List μ}
    {m : μ} {P : σ → Prop} {e : ε}
    (hprep : ∀ m' ∈ before ++ m :: after, ∀ s, P s → P (d.pass.prepare m' s).2)
    (hana : ∀ m' ∈ before ++ m :: after, ∀ s, P s → P (d.pass.analyze m' s).2)
    (hok : ∀ m' ∈ before, ∀ s, P s → ∃ new, (d.pass.analyze m' s).1 = .ok new)
    (hfail : ∀ s, P s → (d.pass.analyze m s).1 = .error e) {s : σ} (hs : P s) :
    let out := d.run (before ++ m :: after) s
    out.error = some (.failed 1 (d.path m) e) ∧ out.report.finalRounds = 0 ∧ P out.state := by
  obtain ⟨hP, hcancelled⟩ := settle_keeps hd hprep hs
  have herror (phase total : Nat) := phaseFrom_failure hd after
    (fun m' hm' => hana m' (List.mem_append_left _ hm')) hok hfail phase total 0 0 [] hP
  have hkeep (phase total : Nat) := d.phaseFrom_keeps hana phase total 0 0 [] hP
  obtain ⟨left, hleft⟩ : ∃ left, (max d.maxPhases 1).toNat = left + 1 :=
    ⟨(max d.maxPhases 1).toNat - 1, by omega⟩
  simp [Driver.run, hcancelled, hleft, phasesFrom, herror, hkeep, RunReport.empty]

end CallTargets.Driver
