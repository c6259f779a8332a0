import CallTargets.Loading
import Mathlib.Algebra.BigOperators.Group.Finset.Basic
import Mathlib.Algebra.Order.BigOperators.Group.Finset
import Mathlib.Data.Fintype.BigOperators
import Mathlib.Logic.Relation

/-!
# Workers

Modules are loaded side by side. Each path gets a worker, started in the order of the paths as soon
as fewer than a given number are busy. A worker reads its module and then notes the outcome in one
of two shared tables, at the place of its path; these steps of different workers may come in any
order. When all have left, the tables are read from front to back.

Every run ends, and however its steps are interleaved, the tables then hold what loading the paths
one after the other gives.
-/
namespace CallTargets

open IR

/-- How many workers may be busy at once: at least one. -/
structure Capacity where
  size : Nat
  positive : 0 < size

/-- The capacity that is asked for. Numbers that are not positive stand for that of the machine. -/
def Capacity.ofRequest (concurrency : Int) (machine : Capacity) : Capacity :=
  if h : concurrency ≤ 0 then machine else ⟨concurrency.toNat, by omega⟩

inductive Job where
  | waiting
  | reading
  | holding (found : Except LoadFailure Module)
  | done

namespace Job

def isBusy : Job → Bool
  | .reading | .holding _ => true
  | .waiting | .done => false

def remaining : Job → Nat
  | .waiting => 3
  | .reading => 2
  | .holding _ => 1
  | .done => 0

end Job

/-- The jobs of `n` paths and the two tables. A place of the first table that nobody has written
holds a module without path and content. -/
structure Pool (n : Nat) where
  jobs : Fin n → Job
  modules : Fin n → ModuleFile
  failures : Fin n → Option LoadFailure

namespace Pool

variable {n : Nat}

def start (n : Nat) : Pool n :=
  ⟨fun _ => .waiting, fun _ => ⟨"", none⟩, fun _ => none⟩

def IsFinished (pool : Pool n) : Prop :=
  ∀ i, pool.jobs i = .done

def busy (pool : Pool n) : Nat :=
  (Finset.univ.filter fun i => (pool.jobs i).isBusy).card

def remaining (pool : Pool n) : Nat :=
  ∑ i, (pool.jobs i).remaining

def setJob (pool : Pool n) (i : Fin n) (job : Job) : Pool n :=
  { pool with jobs := Function.update pool.jobs i job }

inductive Step (fs : Files) (path : Fin n → ByteString) (capacity : Capacity) (pool : Pool n) :
    Pool n → Prop where
  | enter {i : Fin n} (waits : pool.jobs i = .waiting)
      (first : ∀ j < i, pool.jobs j ≠ .waiting) (free : pool.busy < capacity.size) :
      Step fs path capacity pool (pool.setJob i .reading)
  | read {i : Fin n} (reads : pool.jobs i = .reading) :
      Step fs path capacity pool (pool.setJob i (.holding (loadModule fs (path i))))
  | keep {i : Fin n} {m : Module} (holds : pool.jobs i = .holding (.ok m)) :
      Step fs path capacity pool { pool.setJob i .done with
        modules := Function.update pool.modules i ⟨path i, some m⟩ }
  | fail {i : Fin n} {e : LoadFailure} (holds : pool.jobs i = .holding (.error e)) :
      Step fs path capacity pool { pool.setJob i .done with
        failures := Function.update pool.failures i (some e) }

abbrev Reaches (fs : Files) (path : Fin n → ByteString) (capacity : Capacity) :
    Pool n → Pool n → Prop :=
  Relation.ReflTransGen (Step fs path capacity)

/-- The tables from front to back: a path with a failure is left out of the modules. -/
def collect (path : Fin n → ByteString) (pool : Pool n) : Loaded where
  modules := (List.finRange n).filterMap fun i =>
    if (pool.failures i).isSome then none else some (pool.modules i)
  errors := (List.finRange n).filterMap fun i => (pool.failures i).map (⟨path i, ·⟩)

variable {fs : Files} {path : Fin n → ByteString} {capacity : Capacity} {pool next : Pool n}

/-! ### Every run ends -/

theorem remaining_setJob_lt {i : Fin n} {job : Job}
    (h : job.remaining < (pool.jobs i).remaining) :
    (pool.setJob i job).remaining < pool.remaining := by
  apply Finset.sum_lt_sum
  · intro j _
    by_cases hj : j = i
    · subst hj
      simpa [setJob] using h.le
    · simp [setJob, hj]
  · exact ⟨i, Finset.mem_univ i, by simpa [setJob] using h⟩

theorem Step.remaining_lt (h : Step fs path capacity pool next) :
    next.remaining < pool.remaining := by
  cases h with
  | enter waits => exact remaining_setJob_lt (by simp [waits, Job.remaining])
  | read reads => exact remaining_setJob_lt (by simp [reads, Job.remaining])
  | @keep i _ holds =>
    change (pool.setJob i .done).remaining < pool.remaining
    exact remaining_setJob_lt (by simp [holds, Job.remaining])
  | @fail i _ holds =>
    change (pool.setJob i .done).remaining < pool.remaining
    exact remaining_setJob_lt (by simp [holds, Job.remaining])

theorem busy_eq_zero (h : ∀ i, ¬ (pool.jobs i).isBusy) : pool.busy = 0 := by
  rw [busy, Finset.card_eq_zero, Finset.filter_eq_empty_iff]
  exact fun i _ => h i

/-- No pool is stuck before its end: if nobody is busy, the first that waits can start. -/
theorem exists_step (capacity : Capacity) (h : ¬ pool.IsFinished) :
    ∃ next, Step fs path capacity pool next := by
  by_cases hbusy : ∃ i, (pool.jobs i).isBusy
  · obtain ⟨i, hi⟩ := hbusy
    cases hjob : pool.jobs i with
    | waiting => simp [hjob, Job.isBusy] at hi
    | reading => exact ⟨_, .read hjob⟩
    | holding found =>
      cases found with
      | error e => exact ⟨_, .fail hjob⟩
      | ok m => exact ⟨_, .keep hjob⟩
    | done => simp [hjob, Job.isBusy] at hi
  · have hidle : ∀ i, ¬ (pool.jobs i).isBusy := not_exists.mp hbusy
    obtain ⟨i, hi⟩ := not_forall.mp h
    have hwaits : pool.jobs i = .waiting := by
      cases hjob : pool.jobs i with
      | waiting => rfl
      | reading | holding found => exact absurd (by simp [hjob, Job.isBusy]) (hidle i)
      | done => exact absurd hjob hi
    obtain ⟨k, hk, hfirst⟩ :=
      wellFounded_lt.has_min {j : Fin n | pool.jobs j = .waiting} ⟨i, hwaits⟩
    refine ⟨_, .enter hk (fun j hj hw => hfirst j hw hj) ?_⟩
    rw [busy_eq_zero hidle]
    exact capacity.positive

/-- A run cannot go on for ever, and it can go on until all workers have left. -/
structure Ends (fs : Files) (path : Fin n → ByteString) (capacity : Capacity) : Prop where
  halts : WellFounded fun next pool : Pool n => Step fs path capacity pool next
  proceeds : ∀ pool : Pool n, ¬ pool.IsFinished → ∃ next, Step fs path capacity pool next

theorem ends (fs : Files) (path : Fin n → ByteString) (capacity : Capacity) :
    Ends fs path capacity where
  halts := Subrelation.wf (fun h => h.remaining_lt) (measure remaining).wf
  proceeds _ := exists_step capacity

theorem Ends.exists_finished (h : Ends fs path capacity) (pool : Pool n) :
    ∃ last, Reaches fs path capacity pool last ∧ last.IsFinished := by
  induction pool using h.halts.induction with
  | _ pool ih =>
    by_cases hdone : pool.IsFinished
    · exact ⟨pool, .refl, hdone⟩
    · obtain ⟨next, hstep⟩ := h.proceeds pool hdone
      obtain ⟨last, hreach, hlast⟩ := ih next hstep
      exact ⟨last, .head hstep hreach, hlast⟩

/-! ### What the tables hold -/

/-- A job that is not done has noted nothing, and one that is done has noted the outcome of its own
path. -/
def Notes (fs : Files) (path : ByteString) : Job → ModuleFile → Option LoadFailure → Prop
  | .waiting, _, failure | .reading, _, failure => failure = none
  | .holding found, _, failure => found = loadModule fs path ∧ failure = none
  | .done, file, failure =>
    (∃ m, loadModule fs path = .ok m ∧ file = ⟨path, some m⟩ ∧ failure = none) ∨
      ∃ e, loadModule fs path = .error e ∧ failure = some e

def Faithful (fs : Files) (path : Fin n → ByteString) (pool : Pool n) : Prop :=
  ∀ i, Notes fs (path i) (pool.jobs i) (pool.modules i) (pool.failures i)

theorem start_faithful (fs : Files) (path : Fin n → ByteString) : Faithful fs path (start n) :=
  fun _ => rfl

/-- Who leaves the places of the others as they are has to care for one place only. -/
theorem Faithful.of_own (hp : Faithful fs path pool) (i : Fin n)
    (others : ∀ j ≠ i, next.jobs j = pool.jobs j ∧ next.modules j = pool.modules j ∧
      next.failures j = pool.failures j)
    (own : Notes fs (path i) (next.jobs i) (next.modules i) (next.failures i)) :
    Faithful fs path next := by
  intro j
  by_cases hij : j = i
  · subst hij
    exact own
  · obtain ⟨hjob, hmodule, hfailure⟩ := others j hij
    rw [hjob, hmodule, hfailure]
    exact hp j

theorem Step.faithful (h : Step fs path capacity pool next) (hp : Faithful fs path pool) :
    Faithful fs path next := by
  cases h with
  | @enter i waits =>
    apply hp.of_own i
    · simp +contextual [setJob]
    · have hown := hp i
      simpa [setJob, Notes, waits] using hown
  | @read i reads =>
    apply hp.of_own i
    · simp +contextual [setJob]
    · have hown := hp i
      simpa [setJob, Notes, reads] using hown
  | @keep i m holds =>
    apply hp.of_own i
    · simp +contextual [setJob]
    · have hown := hp i
      rw [holds] at hown
      simpa [setJob, Notes, hown.2] using hown.1.symm
  | @fail i e holds =>
    apply hp.of_own i
    · simp +contextual [setJob]
    · have hown := hp i
      rw [holds] at hown
      simpa [setJob, Notes] using hown.1.symm

theorem Reaches.faithful (h : Reaches fs path capacity pool next) (hp : Faithful fs path pool) :
    Faithful fs path next := by
  induction h with
  | refl => exact hp
  | tail _ hstep ih => exact hstep.faithful ih

end Pool

/-! ### The outcome -/

/-- The module of a path, under the path, if it can be loaded. -/
def loaded? (fs : Files) (path : ByteString) : Option ModuleFile :=
  match loadModule fs path with
  | .ok m => some ⟨path, some m⟩
  | .error _ => none

/-- The error of a path, if it cannot be loaded. -/
def loadError? (fs : Files) (path : ByteString) : Option LoadError :=
  match loadModule fs path with
  | .ok _ => none
  | .error e => some ⟨path, e⟩

theorem loadPaths_eq (fs : Files) (paths : List ByteString) :
    loadPaths fs paths = ⟨paths.filterMap (loaded? fs), paths.filterMap (loadError? fs)⟩ := by
  induction paths with
  | nil => rfl
  | cons path rest ih =>
    cases h : loadModule fs path <;> simp [loadPaths, ih, h, loaded?, loadError?]

theorem Pool.Notes.of_done {fs : Files} {path : ByteString} {file : ModuleFile}
    {failure : Option LoadFailure} (h : Notes fs path .done file failure) :
    (if failure.isSome then none else some file) = loaded? fs path ∧
      failure.map (⟨path, ·⟩) = loadError? fs path := by
  obtain ⟨m, hm, rfl, rfl⟩ | ⟨e, he, rfl⟩ := h
  · simp [loaded?, loadError?, hm]
  · simp [loaded?, loadError?, he]

/-- A pool that is finished gives what loading one path after the other gives. -/
theorem Pool.Faithful.collect_eq {fs : Files} {paths : List ByteString} {pool : Pool paths.length}
    (hp : Faithful fs paths.get pool) (hdone : pool.IsFinished) :
    pool.collect paths.get = loadPaths fs paths := by
  have hnotes (i : Fin paths.length) :
      Notes fs (paths.get i) .done (pool.modules i) (pool.failures i) := hdone i ▸ hp i
  rw [loadPaths_eq, collect]
  congr 1
  · calc _ = (List.finRange paths.length).filterMap (loaded? fs ∘ paths.get) :=
          List.filterMap_congr fun i _ => (hnotes i).of_done.1
      _ = paths.filterMap (loaded? fs) := by rw [← List.filterMap_map, List.map_get_finRange]
  · calc _ = (List.finRange paths.length).filterMap (loadError? fs ∘ paths.get) :=
          List.filterMap_congr fun i _ => (hnotes i).of_done.2
      _ = paths.filterMap (loadError? fs) := by rw [← List.filterMap_map, List.map_get_finRange]

/-- The entries of the list file, if one is named. -/
def listedPaths (fs : Files) (listFile : ByteString) : Except ListError (List ByteString) :=
  if listFile.isEmpty then .ok [] else readListFile fs listFile

/-- The paths that are to be loaded: those given and those of the list file, each once. -/
def requested (fs : Files) (paths : List ByteString) (listFile : ByteString) :
    Except LoadingError (List ByteString) :=
  match listedPaths fs listFile with
  | .error e => .error (.list e)
  | .ok more =>
    let all := firstOccurrences (paths ++ more)
    if all.isEmpty then .error .noInput else .ok all

/-- What loading that is not cancelled can answer, by any run of its workers. -/
inductive Loads (fs : Files) (capacity : Capacity) (paths : List ByteString)
    (listFile : ByteString) : Except LoadingError Loaded → Prop where
  | refuse {e : LoadingError} (asked : requested fs paths listFile = .error e) :
      Loads fs capacity paths listFile (.error e)
  | finish {inputs : List ByteString} {pool : Pool inputs.length}
      (asked : requested fs paths listFile = .ok inputs)
      (run : Pool.Reaches fs inputs.get capacity (.start inputs.length) pool)
      (done : pool.IsFinished) :
      Loads fs capacity paths listFile (.ok (pool.collect inputs.get))

theorem loadModules_eq (fs : Files) (paths : List ByteString) (listFile : ByteString) :
    loadModules fs paths listFile false = (requested fs paths listFile).map (loadPaths fs) := by
  unfold loadModules requested listedPaths
  generalize (if listFile.isEmpty then Except.ok [] else readListFile fs listFile) = listed
  cases listed with
  | error e => rfl
  | ok more =>
    dsimp only
    split <;> rfl

/-- There is one answer, whatever the order of the steps and the number of workers. -/
theorem loads_iff {fs : Files} {capacity : Capacity} {paths : List ByteString}
    {listFile : ByteString} {answer : Except LoadingError Loaded} :
    Loads fs capacity paths listFile answer ↔ answer = loadModules fs paths listFile false := by
  rw [loadModules_eq]
  constructor
  · intro h
    cases h with
    | refuse asked => rw [asked]; rfl
    | finish asked run done =>
      rw [asked, (run.faithful (Pool.start_faithful _ _)).collect_eq done]
      rfl
  · rintro rfl
    cases hasked : requested fs paths listFile with
    | error e => exact .refuse hasked
    | ok inputs =>
      obtain ⟨pool, hrun, hdone⟩ :=
        (Pool.ends fs inputs.get capacity).exists_finished (.start inputs.length)
      have hanswer := (hrun.faithful (Pool.start_faithful _ _)).collect_eq hdone
      change Loads fs capacity paths listFile (.ok (loadPaths fs inputs))
      rw [← hanswer]
      exact .finish hasked hrun hdone

end CallTargets
