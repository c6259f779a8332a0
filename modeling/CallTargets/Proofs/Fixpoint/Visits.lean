import CallTargets.Proofs.Fixpoint.Rounds

/-!
# The visits of a run

A pass can be made to write down its visits, each with its stage, its module and the answer. That
changes nothing else about a run. Without cancellation the visits of a run are made of rounds over
all modules in order, up to a failure. The main statement says for every pass how many rounds the
stages have, what they report, and what is left out after a failure.
-/
namespace CallTargets

variable {σ τ μ ε : Type}

/-- A visit of a module: the stage it belongs to, and what the pass answered. -/
structure Visit (μ ε : Type) where
  stage : Stage
  module : μ
  answer : Except ε Bool

def Visit.changed (v : Visit μ ε) : Bool :=
  match v.answer with
  | .ok new => new
  | .error _ => false

def noting (stage : Stage) (step : μ → σ → Bool × σ) (m : μ) (s : σ × List (Visit μ ε)) :
    Bool × σ × List (Visit μ ε) :=
  let r := step m s.1
  (r.1, r.2, s.2 ++ [⟨stage, m, .ok r.1⟩])

def ModulePass.logged (pass : ModulePass σ μ ε) : ModulePass (σ × List (Visit μ ε)) μ ε where
  prepare := noting .prepare pass.prepare
  analyze m s :=
    let r := pass.analyze m s.1
    (r.1, r.2, s.2 ++ [⟨.analyze, m, r.1⟩])
  finish := noting .finish pass.finish

def RunOutcome.map (f : τ → σ) (out : RunOutcome τ ε) : RunOutcome σ ε :=
  ⟨f out.state, out.report, out.progress, out.error⟩

namespace Driver

def logged (d : Driver σ μ ε) : Driver (σ × List (Visit μ ε)) μ ε where
  pass := d.pass.logged
  path := d.path
  maxPhases := d.maxPhases
  cancelled s := d.cancelled s.1

def visits (d : Driver σ μ ε) (ms : List μ) (s : σ) : List (Visit μ ε) :=
  (d.logged.run ms (s, [])).state.2

/-! ### Writing down changes nothing else -/

/-- A driver acts on a part of the states of another as that one acts on the whole. -/
structure Projects (e : Driver τ μ ε) (d : Driver σ μ ε) (f : τ → σ) : Prop where
  prepare : ∀ m t, d.pass.prepare m (f t) = (e.pass.prepare m t).map id f
  analyze : ∀ m t, d.pass.analyze m (f t) = (e.pass.analyze m t).map id f
  finish : ∀ m t, d.pass.finish m (f t) = (e.pass.finish m t).map id f
  path : d.path = e.path
  maxPhases : d.maxPhases = e.maxPhases
  cancelled : ∀ t, d.cancelled (f t) = e.cancelled t

namespace Projects

variable {e : Driver τ μ ε} {d : Driver σ μ ε} {f : τ → σ}

theorem sweep (h : e.Projects d f) {step : μ → σ → Bool × σ} {step' : μ → τ → Bool × τ}
    (hstep : ∀ m t, step m (f t) = (step' m t).map id f) (ms : List μ) (changed : Bool) (t : τ) :
    d.sweep step ms changed (f t) = (e.sweep step' ms changed t).map id f := by
  induction ms generalizing changed t with
  | nil => rfl
  | cons m ms ih =>
    rw [Driver.sweep, Driver.sweep, h.cancelled, hstep]
    split
    · rfl
    · exact ih _ _

theorem settle (h : e.Projects d f) {step : μ → σ → Bool × σ} {step' : μ → τ → Bool × τ}
    (hstep : ∀ m t, step m (f t) = (step' m t).map id f) (ms : List μ) (t : τ) :
    d.settle step ms (f t) =
      ⟨(e.settle step' ms t).rounds, (e.settle step' ms t).cancelled,
        f (e.settle step' ms t).state⟩ := by
  unfold Driver.settle
  generalize maxSettleRounds = left
  generalize 0 = done
  induction left generalizing done t with
  | zero => rfl
  | succ left ih =>
    rw [settleFrom, settleFrom, h.sweep hstep]
    generalize e.sweep step' ms false t = r
    obtain ⟨result, t'⟩ := r
    cases result with
    | none => rfl
    | some new =>
      cases new with
      | false => rfl
      | true => exact ih t' (done + 1)

theorem phaseFrom (h : e.Projects d f) (phase total : Nat) (ms : List μ) (index changed : Nat)
    (seen : List Progress) (t : τ) :
    let r := e.phaseFrom phase total ms index changed seen t
    d.phaseFrom phase total ms index changed seen (f t) =
      ⟨r.changed, r.progress, r.error, f r.state⟩ := by
  induction ms generalizing index changed seen t with
  | nil => rfl
  | cons m ms ih =>
    rw [Driver.phaseFrom, Driver.phaseFrom, h.cancelled, h.analyze, h.path]
    split
    · rfl
    · generalize e.pass.analyze m t = r
      obtain ⟨result, t'⟩ := r
      cases result with
      | error c => rfl
      | ok new => exact ih _ _ _ t'

theorem phasesFrom (h : e.Projects d f) (ms : List μ) (left : Nat) (out : RunOutcome τ ε) :
    d.phasesFrom ms left (out.map f) = (e.phasesFrom ms left out).map f := by
  induction left generalizing out with
  | zero => rfl
  | succ left ih =>
    rw [Driver.phasesFrom, Driver.phasesFrom]
    simp only [RunOutcome.map, h.phaseFrom]
    split
    · rfl
    · split
      · rfl
      · exact ih ⟨_, _, _, _⟩

/-- The runs go alike, and end with the same report, progress and error. -/
theorem run (h : e.Projects d f) (ms : List μ) (t : τ) :
    d.run ms (f t) = (e.run ms t).map f := by
  unfold Driver.run
  dsimp only
  rw [h.settle h.prepare, h.maxPhases]
  split
  · rfl
  · have hphases := h.phasesFrom ms (max e.maxPhases 1).toNat
      ⟨(e.settle e.pass.prepare ms t).state,
        { RunReport.empty with initRounds := (e.settle e.pass.prepare ms t).rounds }, [], none⟩
    simp only [RunOutcome.map] at hphases
    rw [hphases]
    dsimp only
    split
    · rfl
    · rw [h.settle h.finish]
      rfl

end Projects

theorem logged_projects (d : Driver σ μ ε) : d.logged.Projects d Prod.fst where
  prepare _ _ := rfl
  analyze _ _ := rfl
  finish _ _ := rfl
  path := rfl
  maxPhases := rfl
  cancelled _ := rfl

/-! ### Rounds -/

def reported (visits : List (Visit μ ε)) : Nat := visits.countP Visit.changed

theorem reported_cons (v : Visit μ ε) (visits : List (Visit μ ε)) :
    reported (v :: visits) = (if v.changed then 1 else 0) + reported visits := by
  rw [reported, List.countP_cons, Nat.add_comm]
  rfl

/-- The visits go through all modules in order, and none fails. -/
structure FullRound (stage : Stage) (ms : List μ) (visits : List (Visit μ ε)) : Prop where
  order : visits.map (fun v => (v.stage, v.module)) = ms.map fun m => (stage, m)
  passed : ∀ v ∈ visits, ∃ new, v.answer = .ok new

/-- Full rounds, one at least and at most a number of them, of which only the last may report no
change, and does so unless there are as many as may be. -/
structure Repeats (stage : Stage) (ms : List μ) (bound : Nat) (rounds : List (List (Visit μ ε))) :
    Prop where
  full : ∀ r ∈ rounds, FullRound stage ms r
  some_round : rounds ≠ []
  bounded : rounds.length ≤ bound
  busy : ∀ r ∈ rounds.dropLast, reported r ≠ 0
  calm : rounds.length < bound → ∀ r ∈ rounds.getLast?, reported r = 0

variable {stage : Stage} {ms : List μ}

theorem FullRound.nil : FullRound (ε := ε) stage ([] : List μ) [] :=
  ⟨rfl, fun v hv => by cases hv⟩

theorem FullRound.cons {round : List (Visit μ ε)} (h : FullRound stage ms round) (m : μ)
    (new : Bool) : FullRound stage (m :: ms) (⟨stage, m, .ok new⟩ :: round) where
  order := by simp [h.order]
  passed v hv := by
    rcases List.mem_cons.mp hv with rfl | hv
    · exact ⟨new, rfl⟩
    · exact h.passed v hv

theorem Repeats.calm_round {round : List (Visit μ ε)} (h : FullRound stage ms round)
    (hcalm : reported round = 0) (left : Nat) : Repeats stage ms (left + 1) [round] where
  full := by simpa using h
  some_round := by simp
  bounded := by simp
  busy := by simp
  calm := by simpa using fun _ => hcalm

theorem Repeats.last_round {round : List (Visit μ ε)} (h : FullRound stage ms round) :
    Repeats stage ms 1 [round] where
  full := by simpa using h
  some_round := by simp
  bounded := by simp
  busy := by simp
  calm := by simp

theorem Repeats.cons {round : List (Visit μ ε)} {rounds : List (List (Visit μ ε))} {left : Nat}
    (hround : FullRound stage ms round) (hbusy : reported round ≠ 0)
    (h : Repeats stage ms left rounds) : Repeats stage ms (left + 1) (round :: rounds) where
  full r hr := by
    rcases List.mem_cons.mp hr with rfl | hr
    · exact hround
    · exact h.full r hr
  some_round := by simp
  bounded := by simpa using h.bounded
  busy r hr := by
    rw [List.dropLast_cons_of_ne_nil h.some_round] at hr
    rcases List.mem_cons.mp hr with rfl | hr
    · exact hbusy
    · exact h.busy r hr
  calm hlt := by
    rw [List.getLast?_cons_of_ne_nil h.some_round]
    exact h.calm (by simpa using hlt)

theorem visit_noting (stage : Stage) (step : μ → σ → Bool × σ) (ms : List μ)
    (s : σ × List (Visit μ ε)) :
    ∃ round, (visit (noting stage step) ms s).2 = s.2 ++ round ∧ FullRound stage ms round ∧
      reported round = changes (noting stage step) ms s := by
  induction ms generalizing s with
  | nil => exact ⟨[], by simp, .nil, rfl⟩
  | cons m ms ih =>
    obtain ⟨round, hlog, hfull, hcount⟩ := ih (noting stage step m s).2
    refine ⟨⟨stage, m, .ok (step m s.1).1⟩ :: round, ?_, hfull.cons m _, ?_⟩
    · rw [visit_cons, hlog]
      simp [noting]
    · rw [changes, ← hcount, reported_cons]
      rfl

/-- Rounds until one changes nothing write down full rounds of this kind. -/
theorem settleFrom_noting {d : Driver (σ × List (Visit μ ε)) μ ε}
    (hd : ∀ s, d.cancelled s = false) (stage : Stage) (step : μ → σ → Bool × σ) (ms : List μ)
    (left done : Nat) (s : σ × List (Visit μ ε)) :
    let r := d.settleFrom (noting stage step) ms (left + 1) done s
    ∃ rounds, Repeats stage ms (left + 1) rounds ∧ r.rounds = done + rounds.length ∧
      r.cancelled = false ∧ r.state.2 = s.2 ++ rounds.flatten := by
  induction left generalizing done s with
  | zero =>
    obtain ⟨round, hlog, hfull, -⟩ := visit_noting stage step ms s
    refine ⟨[round], .last_round hfull, ?_⟩
    rw [settleFrom, sweep_eq hd]
    cases decide (changes (noting stage step) ms s ≠ 0) <;> simp [settleFrom, hlog]
  | succ left ih =>
    obtain ⟨round, hlog, hfull, hcount⟩ := visit_noting stage step ms s
    rw [settleFrom, sweep_eq hd, ← hcount]
    by_cases hcalm : reported round = 0
    · refine ⟨[round], .calm_round hfull hcalm _, ?_⟩
      simp [hcalm, hlog]
    · obtain ⟨rounds, hrep, hrounds, hcancelled, hstate⟩ :=
        ih (done + 1) (visit (noting stage step) ms s)
      refine ⟨round :: rounds, hrep.cons hfull hcalm, ?_⟩
      simp only [ne_eq, hcalm, not_false_eq_true, decide_true, Bool.or_true]
      refine ⟨?_, hcancelled, ?_⟩
      · rw [hrounds, List.length_cons]
        omega
      · rw [hstate, hlog]
        simp

/-! ### Phases -/

def CutRound (ms : List μ) (m : μ) (e : ε) (visits : List (Visit μ ε)) : Prop :=
  ∃ before after round, ms = before ++ m :: after ∧ FullRound .analyze before round ∧
    visits = round ++ [⟨.analyze, m, .error e⟩]

/-- Phases that all report a change, fewer than may run, and one more that a failure ends. -/
structure Breaks (ms : List μ) (bound : Nat) (phases : List (List (Visit μ ε))) (m : μ) (e : ε)
    (cut : List (Visit μ ε)) : Prop where
  full : ∀ r ∈ phases, FullRound .analyze ms r
  busy : ∀ r ∈ phases, reported r ≠ 0
  bounded : phases.length < bound
  cut : CutRound ms m e cut

theorem CutRound.head (m : μ) (ms : List μ) (e : ε) :
    CutRound (m :: ms) m e [⟨.analyze, m, .error e⟩] :=
  ⟨[], ms, [], rfl, .nil, rfl⟩

theorem CutRound.cons {m : μ} {e : ε} {cut : List (Visit μ ε)} (h : CutRound ms m e cut) (a : μ)
    (new : Bool) : CutRound (a :: ms) m e (⟨.analyze, a, .ok new⟩ :: cut) := by
  obtain ⟨before, after, round, rfl, hround, rfl⟩ := h
  exact ⟨a :: before, after, _, rfl, hround.cons a new, rfl⟩

theorem Breaks.first {m : μ} {e : ε} {cut : List (Visit μ ε)} (h : CutRound ms m e cut)
    (left : Nat) : Breaks ms (left + 1) [] m e cut where
  full := by simp
  busy := by simp
  bounded := by simp
  cut := h

theorem Breaks.cons {phases : List (List (Visit μ ε))} {m : μ} {e : ε} {cut : List (Visit μ ε)}
    {left : Nat} (h : Breaks ms left phases m e cut) {round : List (Visit μ ε)}
    (hround : FullRound .analyze ms round) (hbusy : reported round ≠ 0) :
    Breaks ms (left + 1) (round :: phases) m e cut where
  full := List.forall_mem_cons.mpr ⟨hround, h.full⟩
  busy := List.forall_mem_cons.mpr ⟨hbusy, h.busy⟩
  bounded := by simpa using h.bounded
  cut := h.cut

/-- A phase writes down a full round, or the visits up to the one that fails. -/
theorem phaseFrom_logged {d : Driver σ μ ε} (hd : ∀ s, d.cancelled s = false) (phase total : Nat)
    (ms : List μ) (index changed : Nat) (seen : List Progress) (s : σ × List (Visit μ ε)) :
    let r := d.logged.phaseFrom phase total ms index changed seen s
    (∃ round, FullRound .analyze ms round ∧ r.error = none ∧
        r.changed = changed + reported round ∧ r.state.2 = s.2 ++ round) ∨
      ∃ m e cut, CutRound ms m e cut ∧ r.error = some (.failed phase (d.path m) e) ∧
        r.state.2 = s.2 ++ cut := by
  induction ms generalizing index changed seen s with
  | nil => exact .inl ⟨[], .nil, rfl, rfl, by simp [phaseFrom]⟩
  | cons m ms ih =>
    have hlive : d.logged.cancelled s = false := hd s.1
    rw [phaseFrom, hlive]
    cases ha : d.pass.analyze m s.1 with
    | mk answer t =>
      have hstep : d.logged.pass.analyze m s = (answer, t, s.2 ++ [⟨.analyze, m, answer⟩]) := by
        simp [logged, ModulePass.logged, ha]
      rw [hstep]
      cases answer with
      | error e => exact .inr ⟨m, e, _, .head m ms e, rfl, rfl⟩
      | ok new =>
        simp only [Bool.false_eq_true, if_false]
        rcases ih (index + 1) (if new then changed + 1 else changed)
          (⟨phase, index + 1, total, d.logged.path m, new⟩ :: seen)
          (t, s.2 ++ [⟨.analyze, m, .ok new⟩]) with
          ⟨round, hfull, herror, hcount, hlog⟩ | ⟨m', e, cut, hcut, herror, hlog⟩
        · refine .inl ⟨_, hfull.cons m new, herror, ?_, by simpa using hlog⟩
          rw [hcount, reported_cons]
          cases new <;> simp [Visit.changed, Nat.add_assoc]
        · exact .inr ⟨m', e, _, hcut.cons m new, herror, by simpa using hlog⟩

def withPhases (report : RunReport) (phases : List (List (Visit μ ε))) : RunReport :=
  { report with
    phases := report.phases + phases.length
    changedPerPhase := report.changedPerPhase ++ phases.map reported }

theorem withPhases_cons (report : RunReport) (round : List (Visit μ ε))
    (phases : List (List (Visit μ ε))) :
    withPhases (withPhases report [round]) phases = withPhases report (round :: phases) := by
  simp only [withPhases, RunReport.mk.injEq, List.length_cons, List.length_nil, List.map_cons,
    List.map_nil, List.append_assoc, List.singleton_append, true_and, and_true]
  omega

/-- One more phase: it writes down a full round, after which the phases may be over, or it ends
them by a failure. -/
theorem phasesFrom_logged_succ {d : Driver σ μ ε} (hd : ∀ s, d.cancelled s = false) (ms : List μ)
    (left : Nat) {out : RunOutcome (σ × List (Visit μ ε)) ε} (hout : out.error = none) :
    let r := d.logged.phasesFrom ms (left + 1) out
    (∃ round next, FullRound .analyze ms round ∧
        r = (if reported round = 0 then next else d.logged.phasesFrom ms left next) ∧
        next.error = none ∧ next.report = withPhases out.report [round] ∧
        next.state.2 = out.state.2 ++ round) ∨
      ∃ m e cut, CutRound ms m e cut ∧
        r.error = some (.failed (out.report.phases + 1) (d.path m) e) ∧
        r.report = out.report ∧ r.state.2 = out.state.2 ++ cut := by
  rcases phaseFrom_logged hd (out.report.phases + 1) ms.length ms 0 0 [] out.state with
    ⟨round, hfull, herror, hcount, hlog⟩ | ⟨m, e, cut, hcut, herror, hlog⟩
  · let r := d.logged.phaseFrom (out.report.phases + 1) ms.length ms 0 0 [] out.state
    refine .inl ⟨round, ⟨r.state, withPhases out.report [round], out.progress ++ r.progress,
      out.error⟩, hfull, ?_, hout, rfl, hlog⟩
    rw [phasesFrom]
    simp only [herror, hcount, Nat.zero_add]
    rfl
  · refine .inr ⟨m, e, cut, hcut, ?_⟩
    rw [phasesFrom]
    simpa only [herror, true_and] using hlog

/-- Phases write down full rounds until one reports no change or a failure ends it. -/
theorem phasesFrom_logged {d : Driver σ μ ε} (hd : ∀ s, d.cancelled s = false) (ms : List μ)
    (left : Nat) (out : RunOutcome (σ × List (Visit μ ε)) ε) (hout : out.error = none) :
    let r := d.logged.phasesFrom ms (left + 1) out
    (∃ phases, Repeats .analyze ms (left + 1) phases ∧ r.error = none ∧
        r.report = withPhases out.report phases ∧ r.state.2 = out.state.2 ++ phases.flatten) ∨
      ∃ phases m e cut, Breaks ms (left + 1) phases m e cut ∧
        r.error = some (.failed (out.report.phases + phases.length + 1) (d.path m) e) ∧
        r.report = withPhases out.report phases ∧
        r.state.2 = out.state.2 ++ (phases.flatten ++ cut) := by
  induction left generalizing out with
  | zero =>
    rcases phasesFrom_logged_succ hd ms 0 hout with
      ⟨round, next, hfull, heq, herror, hreport, hlog⟩ | ⟨m, e, cut, hcut, herror, hreport, hlog⟩
    · rw [phasesFrom, ite_self] at heq
      dsimp only
      rw [heq]
      exact .inl ⟨[round], .last_round hfull, herror, hreport, by simpa using hlog⟩
    · exact .inr ⟨[], m, e, cut, .first hcut 0, herror, by simpa [withPhases] using hreport, hlog⟩
  | succ left ih =>
    rcases phasesFrom_logged_succ hd ms (left + 1) hout with
      ⟨round, next, hfull, heq, herror, hreport, hlog⟩ | ⟨m, e, cut, hcut, herror, hreport, hlog⟩
    · dsimp only
      rw [heq]
      by_cases hcalm : reported round = 0
      · rw [if_pos hcalm]
        exact .inl ⟨[round], .calm_round hfull hcalm _, herror, hreport, by simpa using hlog⟩
      · rw [if_neg hcalm]
        rcases ih next herror with ⟨phases, hrep, herror', hreport', hlog'⟩ |
          ⟨phases, m, e, cut, hbreak, herror', hreport', hlog'⟩
        · refine .inl ⟨round :: phases, hrep.cons hfull hcalm, herror', ?_, ?_⟩
          · rw [hreport', hreport, withPhases_cons]
          · rw [hlog', hlog, List.flatten_cons, List.append_assoc]
        · refine .inr ⟨round :: phases, m, e, cut, hbreak.cons hfull hcalm, ?_, ?_, ?_⟩
          · rw [herror', hreport, List.length_cons]
            simp only [withPhases, List.length_singleton, Option.some.injEq, RunError.failed.injEq,
              and_true]
            omega
          · rw [hreport', hreport, withPhases_cons]
          · rw [hlog', hlog, List.flatten_cons, List.append_assoc, List.append_assoc]
    · exact .inr ⟨[], m, e, cut, .first hcut _, herror, by simpa [withPhases] using hreport, hlog⟩

/-! ### Runs -/

/-- A run in which no module fails: rounds of preparation, phases, and rounds of finish. -/
structure Completes (d : Driver σ μ ε) (ms : List μ) (visits : List (Visit μ ε))
    (out : RunOutcome σ ε) (first phases last : List (List (Visit μ ε))) : Prop where
  visits_eq : visits = first.flatten ++ phases.flatten ++ last.flatten
  prepare : Repeats .prepare ms maxSettleRounds first
  analyze : Repeats .analyze ms d.cap phases
  finish : Repeats .finish ms maxSettleRounds last
  error : out.error = none
  report : out.report = ⟨first.length, phases.length, phases.map reported, last.length⟩

/-- A run that ends where a module fails in a phase. Only the phases before count, and no finish
follows. -/
structure Fails (d : Driver σ μ ε) (ms : List μ) (visits : List (Visit μ ε))
    (out : RunOutcome σ ε) (first phases : List (List (Visit μ ε))) (cut : List (Visit μ ε)) (m : μ)
    (e : ε) : Prop where
  visits_eq : visits = first.flatten ++ phases.flatten ++ cut
  prepare : Repeats .prepare ms maxSettleRounds first
  analyze : Breaks ms d.cap phases m e cut
  error : out.error = some (.failed (phases.length + 1) (d.path m) e)
  report : out.report = ⟨first.length, phases.length, phases.map reported, 0⟩

theorem settle_noting {d : Driver (σ × List (Visit μ ε)) μ ε} (hd : ∀ s, d.cancelled s = false)
    (stage : Stage) (step : μ → σ → Bool × σ) (ms : List μ) (s : σ × List (Visit μ ε)) :
    ∃ rounds t, Repeats stage ms maxSettleRounds rounds ∧
      d.settle (noting stage step) ms s = ⟨rounds.length, false, t⟩ ∧
      t.2 = s.2 ++ rounds.flatten := by
  obtain ⟨rounds, hrep, hrounds, hlive, hlog⟩ :=
    settleFrom_noting hd stage step ms (maxSettleRounds - 1) 0 s
  refine ⟨rounds, (d.settle (noting stage step) ms s).state, hrep, ?_, hlog⟩
  rw [Nat.zero_add] at hrounds
  rw [← hrounds, ← hlive]
  rfl

/-- The visits of a run that is not cancelled, and what it reports, for every pass: either no
module fails, or the run ends where one does. -/
theorem run_visits {d : Driver σ μ ε} (hd : ∀ s, d.cancelled s = false) (ms : List μ) (s : σ) :
    (d.logged.run ms (s, [])).map Prod.fst = d.run ms s ∧
      ((∃ first phases last, d.Completes ms (d.visits ms s) (d.run ms s) first phases last) ∨
        ∃ first phases cut m e, d.Fails ms (d.visits ms s) (d.run ms s) first phases cut m e) := by
  have hrun := d.logged_projects.run ms (s, [])
  refine ⟨hrun.symm, ?_⟩
  have hlogged : ∀ s, d.logged.cancelled s = false := fun s => hd s.1
  obtain ⟨first, prepared, hfirst, hsettle, hlog⟩ :=
    settle_noting hlogged .prepare d.pass.prepare ms (s, [])
  have hprepare : d.logged.settle d.logged.pass.prepare ms (s, []) =
    ⟨first.length, false, prepared⟩ := hsettle
  obtain ⟨left, hleft⟩ : ∃ left, d.cap = left + 1 := ⟨d.cap - 1, by have := d.cap_pos; omega⟩
  have hcap : (max d.logged.maxPhases 1).toNat = left + 1 := hleft
  have hphases := phasesFrom_logged hd ms left
    ⟨prepared, { RunReport.empty with initRounds := first.length }, [], none⟩ rfl
  rw [hrun, visits]
  simp only [Driver.run, hprepare, Bool.false_eq_true, if_false, hcap]
  generalize d.logged.phasesFrom ms (left + 1) _ = out at hphases ⊢
  rcases hphases with
    ⟨phases, hrep, herror, hreport, hlog'⟩ | ⟨phases, m, e, cut, hbreak, herror, hreport, hlog'⟩
  · obtain ⟨last, finished, hlast, hsettle', hlog''⟩ :=
      settle_noting hlogged .finish d.pass.finish ms out.state
    have hfinish : d.logged.settle d.logged.pass.finish ms out.state =
      ⟨last.length, false, finished⟩ := hsettle'
    simp only [herror, hfinish, hreport]
    refine .inl ⟨first, phases, last, ?_, hfirst, hleft ▸ hrep, hlast, rfl, ?_⟩
    · rw [hlog'', hlog', hlog]
      simp
    · simp [RunOutcome.map, withPhases, RunReport.empty]
  · simp only [herror]
    refine .inr ⟨first, phases, cut, m, e, ?_, hfirst, hleft ▸ hbreak, ?_, ?_⟩
    · rw [hlog', hlog]
      simp
    · simpa [RunOutcome.map, RunReport.empty] using herror
    · simp [RunOutcome.map, hreport, withPhases, RunReport.empty]

end Driver

/-! ### A pass that counts its visits -/

namespace Counting

/-- Counts its visits. Preparation reports a change for the first three of them, and the answers of
the phases are given by the count. -/
def driver (answer : Nat → Except String Bool) : Driver Nat Nat String where
  pass :=
    { prepare := fun _ n => (n < 3, n + 1)
      analyze := fun _ n => (answer n, n + 1)
      finish := fun _ n => (false, n + 1) }
  path m := toString m
  maxPhases := 5
  cancelled _ := false

def failing : Driver Nat Nat String :=
  driver fun n => if n = 10 then .error "no more" else .ok true

end Counting

theorem Driver.run_visits_counting :
    (∀ n, Counting.failing.cancelled n = false) ∧
      (Counting.failing.run [0, 1, 2] 0).error = some (.failed 2 "1" "no more") ∧
      (Counting.failing.run [0, 1, 2] 0).report = ⟨2, 1, [3], 0⟩ ∧
      ∃ first phases cut m e, Counting.failing.Fails [0, 1, 2]
        (Counting.failing.visits [0, 1, 2] 0) (Counting.failing.run [0, 1, 2] 0) first phases cut m
        e := by
  have herror : (Counting.failing.run [0, 1, 2] 0).error = some (.failed 2 "1" "no more") := by
    decide +kernel
  refine ⟨fun _ => rfl, herror, by decide +kernel, ?_⟩
  rcases (run_visits (d := Counting.failing) (fun _ => rfl) [0, 1, 2] 0).2 with
    ⟨first, phases, last, hcompletes⟩ | hfails
  · rw [hcompletes.error] at herror
    cases herror
  · exact hfails

end CallTargets
