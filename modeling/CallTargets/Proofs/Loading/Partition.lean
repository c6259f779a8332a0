import CallTargets.Proofs.Loading.Workers
import CallTargets.Proofs.Sorting

/-!
# The inputs and what becomes of them

The inputs are the paths given and then the entries of the list file, each path once, where it
first occurs. An entry is a line of the list file without the blanks around it, if anything is left
and it is no comment. Every input is either loaded or left out with an error, both in the order of
the inputs. It is loaded exactly if its file can be read, is not bitcode and parses.
-/
namespace CallTargets

open IR Text

/-! ### Lines of a list file -/

namespace Text

/-- A blank of one byte at the end is trimmed. -/
theorem trimBytes_concat {b : UInt8} (hb : b.toNat < 0x80)
    (hblank : isBlank (Char.ofNat b.toNat) = true) (bytes : List UInt8) :
    trimBytes ⟨bytes ++ [b]⟩ = trimBytes ⟨bytes⟩ := by
  simp only [trimBytes, characters_concat hb, List.dropWhile_append]
  split
  · next h => simp [hblank, List.isEmpty_iff.mp h]
  · simp [hblank]

theorem trimBytes_finishLine (line : List UInt8) :
    trimBytes ⟨finishLine line⟩ = trimBytes ⟨line.reverse⟩ := by
  unfold finishLine
  split
  · next rest =>
    rw [List.reverse_cons]
    exact (trimBytes_concat (by decide) (by decide) rest.reverse).symm
  · rfl

/-- The lines of a text of bytes, with the bytes before it, last first, that belong to the first
line. -/
def linesFrom (line bytes : List UInt8) : List (List UInt8) :=
  (bytes.splitOn 0x0A).modifyHead (line.reverse ++ ·)

theorem linesFrom_nil_left (bytes : List UInt8) : linesFrom [] bytes = bytes.splitOn 0x0A := by
  cases h : bytes.splitOn 0x0A <;> simp [linesFrom, h]

theorem linesFrom_nil (line : List UInt8) : linesFrom line [] = [line.reverse] := by
  simp [linesFrom]

theorem linesFrom_newline (line bytes : List UInt8) :
    linesFrom line (0x0A :: bytes) = line.reverse :: linesFrom [] bytes := by
  rw [linesFrom_nil_left, linesFrom, List.splitOn, List.splitOnP_cons_eq_if_modifyHead]
  simp [List.splitOn]

theorem linesFrom_cons {b : UInt8} (hb : b ≠ 0x0A) (line bytes : List UInt8) :
    linesFrom line (b :: bytes) = linesFrom (b :: line) bytes := by
  rw [linesFrom, linesFrom, List.splitOn, List.splitOnP_cons_eq_if_modifyHead]
  cases h : bytes.splitOnP (· == 0x0A) <;> simp [hb, List.splitOn, h]

/-- The first line has at least the bytes that were there before. -/
theorem exists_mem_linesFrom (line bytes : List UInt8) :
    ∃ l ∈ linesFrom line bytes, line.length ≤ l.length := by
  cases h : bytes.splitOn 0x0A with
  | nil => exact absurd h (List.splitOnP_ne_nil _ _)
  | cons l ls => exact ⟨line.reverse ++ l, by simp [linesFrom, h], by simp⟩

theorem splitLines_tooLong (limit : Nat) (bytes line : List UInt8) (done : List (List UInt8)) :
    (splitLines limit bytes line line.length done).tooLong = true ↔
      ∃ l ∈ linesFrom line bytes, limit ≤ l.length := by
  induction bytes generalizing line done with
  | nil =>
    rw [linesFrom_nil, splitLines]
    split <;> (try split) <;> simp_all
  | cons b bytes ih =>
    rw [splitLines]
    split
    · next hlong =>
      obtain ⟨l, hl, hlength⟩ := exists_mem_linesFrom line (b :: bytes)
      simpa using ⟨l, hl, hlong.trans hlength⟩
    · next hshort =>
      split
      · next hb =>
        subst hb
        rw [linesFrom_newline]
        simpa [hshort] using ih [] _
      · next hb =>
        rw [linesFrom_cons hb]
        exact ih (b :: line) done

end Text

theorem listEntries_append (as bs : List ByteString) :
    listEntries (as ++ bs) = listEntries as ++ listEntries bs := by
  simp [listEntries]

theorem listEntries_finishLine (line : List UInt8) :
    listEntries [⟨finishLine line⟩] = listEntries [⟨line.reverse⟩] := by
  simp [listEntries, trimBytes_finishLine]

theorem listEntries_empty : listEntries [⟨[]⟩] = [] := by
  decide

/-- Neither the carriage return before a newline nor an empty last line makes a difference to the
entries. -/
theorem listEntries_splitLines {limit : Nat} {bytes : List UInt8} (line : List UInt8)
    (done : List (List UInt8))
    (h : (splitLines limit bytes line line.length done).tooLong = false) :
    listEntries ((splitLines limit bytes line line.length done).lines.map ByteString.mk) =
      listEntries (done.reverse.map ByteString.mk) ++
        listEntries ((linesFrom line bytes).map ByteString.mk) := by
  induction bytes generalizing line done with
  | nil =>
    rw [linesFrom_nil]
    rw [splitLines] at h ⊢
    split at h
    · cases h
    · next hshort =>
      rw [if_neg hshort]
      by_cases hline : line = []
      · subst hline
        simp [listEntries_empty]
      · rw [if_neg (by simpa using hline)]
        simp [listEntries_append, listEntries_finishLine]
  | cons b bytes ih =>
    rw [splitLines] at h ⊢
    split at h
    · cases h
    · next hshort =>
      rw [if_neg hshort]
      split at h
      · next hb =>
        subst hb
        rw [if_pos rfl, linesFrom_newline]
        rw [List.length_nil.symm] at h
        rw [List.length_nil.symm, ih [] _ h]
        simp only [List.reverse_cons, List.map_append, List.map_cons, List.map_nil,
          listEntries_append, listEntries_finishLine, List.append_assoc]
        rw [← listEntries_append, List.singleton_append]
      · next hb =>
        rw [if_neg hb, linesFrom_cons hb]
        exact ih (b :: line) done h

def entriesOf (bytes : List UInt8) : List ByteString :=
  ((bytes.splitOn 0x0A).map fun line => trimBytes ⟨line⟩).filter fun entry =>
    entry.bytes ≠ [] ∧ entry.bytes.head? ≠ some 0x23

/-- A list file can be read if no line of it is too long. -/
theorem readListFile_eq_ok {fs : Files} {path : ByteString} {listed : List ByteString} :
    readListFile fs path = .ok listed ↔
      ∃ bytes, fs.read path = .ok bytes ∧
        (∀ line ∈ bytes.splitOn 0x0A, line.length < listLineLimit) ∧ listed = entriesOf bytes := by
  have hentries (bytes : List UInt8) :
      listEntries ((bytes.splitOn 0x0A).map ByteString.mk) = entriesOf bytes := by
    rw [listEntries, List.map_map]
    apply List.filter_congr
    intro entry _
    rw [Bool.eq_iff_iff]
    simp [ByteString.isEmpty]
  unfold readListFile Files.read
  cases fs.openEntry path with
  | error e => simp
  | ok entry =>
    cases entry with
    | directory => simp
    | file bytes =>
      have hlong := splitLines_tooLong listLineLimit bytes [] []
      rw [linesFrom_nil_left] at hlong
      dsimp only
      split
      · next h =>
        obtain ⟨line, hline, hlength⟩ := hlong.mp h
        simp only [reduceCtorEq, Except.ok.injEq, exists_eq_left', false_iff, not_and]
        exact fun hshort => absurd (hshort line hline) (not_lt.mpr hlength)
      · next h =>
        have hshort : ∀ line ∈ bytes.splitOn 0x0A, line.length < listLineLimit :=
          fun line hline => not_le.mp fun hlength => h (hlong.mpr ⟨line, hline, hlength⟩)
        have hlines : listEntries ((lines listLineLimit bytes).lines.map ByteString.mk) =
            entriesOf bytes := by
          rw [← hentries, ← linesFrom_nil_left]
          exact listEntries_splitLines [] [] (Bool.not_eq_true _ ▸ h)
        simpa [hlines, eq_comm] using fun _ => hshort

/-- The entries of the list file, where one is named. -/
def Listed (fs : Files) (listFile : ByteString) (listed : List ByteString) : Prop :=
  if listFile.bytes = [] then listed = []
  else ∃ bytes, fs.read listFile = .ok bytes ∧
    (∀ line ∈ bytes.splitOn 0x0A, line.length < listLineLimit) ∧ listed = entriesOf bytes

theorem listedPaths_eq_ok {fs : Files} {listFile : ByteString} {listed : List ByteString} :
    listedPaths fs listFile = .ok listed ↔ Listed fs listFile listed := by
  unfold listedPaths Listed
  simp only [ByteString.isEmpty, List.isEmpty_iff]
  split
  · simp [eq_comm]
  · exact readListFile_eq_ok

theorem firstOccurrences_eq (paths : List ByteString) :
    firstOccurrences paths = paths.eraseDups := by
  induction paths using List.reverseRecOn with
  | nil => rfl
  | append_singleton paths path ih =>
    unfold firstOccurrences at ih ⊢
    rw [List.foldl_append, ih, eraseDups_concat]
    simp

/-! ### Loaded or left out -/

/-- A path whose file can be read, is not bitcode and parses, with the module it holds. -/
def Holding (fs : Files) (path : ByteString) (m : Module) : Prop :=
  ∃ bytes, fs.read path = .ok bytes ∧ (∀ magic ∈ bitcodeMagics, ¬ magic <+: bytes) ∧
    Module.ofBytes? ⟨bytes⟩ = some m

def LoadFailure.Explains (fs : Files) (path : ByteString) : LoadFailure → Prop
  | .unreadable e => fs.read path = .error e
  | .bitcode => ∃ bytes, fs.read path = .ok bytes ∧ ∃ magic ∈ bitcodeMagics, magic <+: bytes
  | .malformed => ∃ bytes, fs.read path = .ok bytes ∧
      (∀ magic ∈ bitcodeMagics, ¬ magic <+: bytes) ∧ Module.ofBytes? ⟨bytes⟩ = none

theorem loadModule_eq_ok {fs : Files} {path : ByteString} {m : Module} :
    loadModule fs path = .ok m ↔ Holding fs path m := by
  unfold loadModule Holding
  cases fs.read path with
  | error e => simp
  | ok bytes =>
    by_cases h : ∃ magic ∈ bitcodeMagics, magic <+: bytes
    · simp [h]
    · have hplain : ∀ magic ∈ bitcodeMagics, ¬ magic <+: bytes := by simpa using h
      cases hparse : Module.ofBytes? ⟨bytes⟩ with
      | none => simp [h, hparse]
      | some parsed => simpa [h, hparse] using fun _ => hplain

theorem LoadFailure.explains {fs : Files} {path : ByteString} {e : LoadFailure}
    (h : loadModule fs path = .error e) : e.Explains fs path := by
  unfold loadModule at h
  split at h
  · next hread =>
    cases h
    exact hread
  · next bytes hread =>
    split at h
    · next hmagic =>
      cases h
      exact ⟨bytes, hread, by simpa using hmagic⟩
    · next hmagic =>
      split at h
      · cases h
      · next hparse =>
        cases h
        exact ⟨bytes, hread, by simpa using hmagic, hparse⟩

/-- Every input is loaded or left out, in order. -/
structure Partition (fs : Files) (inputs : List ByteString) (l : Loaded) : Prop where
  nodup : inputs.Nodup
  modules_sublist : (l.modules.map ModuleFile.path).Sublist inputs
  errors_sublist : (l.errors.map LoadError.path).Sublist inputs
  complementary : (l.modules.map ModuleFile.path ++ l.errors.map LoadError.path).Perm inputs
  loaded_iff : ∀ path ∈ inputs, path ∈ l.modules.map ModuleFile.path ↔ ∃ m, Holding fs path m
  content : ∀ file ∈ l.modules, ∃ m, file.content = some m ∧ Holding fs file.path m
  cause : ∀ e ∈ l.errors, e.cause.Explains fs e.path

/-- What is found for some paths, and names the path it is found for, names them in order. -/
theorem map_filterMap_path {α : Type} {find? : ByteString → Option α} {pathOf : α → ByteString}
    (h : ∀ path a, find? path = some a → pathOf a = path) (inputs : List ByteString) :
    (inputs.filterMap find?).map pathOf = inputs.filter fun path => (find? path).isSome := by
  induction inputs with
  | nil => rfl
  | cons path rest ih =>
    cases hfind : find? path with
    | none => simp [hfind, ih]
    | some a => simp [hfind, ih, h path a hfind]

theorem isSome_loadError? (fs : Files) (path : ByteString) :
    (loadError? fs path).isSome = !(loaded? fs path).isSome := by
  cases h : loadModule fs path <;> simp [loaded?, loadError?, h]

theorem loadError?_eq_some {fs : Files} {path : ByteString} {e : LoadError} :
    loadError? fs path = some e ↔ loadModule fs path = .error e.cause ∧ e.path = path := by
  cases h : loadModule fs path with
  | ok m => simp [loadError?, h]
  | error cause =>
    obtain ⟨epath, ecause⟩ := e
    simp [loadError?, h, eq_comm, and_comm]

theorem loaded?_eq_some {fs : Files} {path : ByteString} {file : ModuleFile} :
    loaded? fs path = some file ↔ ∃ m, Holding fs path m ∧ file = ⟨path, some m⟩ := by
  simp only [← loadModule_eq_ok]
  cases h : loadModule fs path <;> simp [loaded?, h, eq_comm]

theorem loadPaths_partition (fs : Files) {inputs : List ByteString} (h : inputs.Nodup) :
    Partition fs inputs (loadPaths fs inputs) := by
  have hmodules : (inputs.filterMap (loaded? fs)).map ModuleFile.path =
      inputs.filter fun path => (loaded? fs path).isSome := by
    apply map_filterMap_path
    intro path file hfile
    obtain ⟨m, -, rfl⟩ := loaded?_eq_some.mp hfile
    rfl
  have herrors : (inputs.filterMap (loadError? fs)).map LoadError.path =
      inputs.filter fun path => !(loaded? fs path).isSome := by
    simp only [← isSome_loadError?]
    exact map_filterMap_path (fun path e he => (loadError?_eq_some.mp he).2) inputs
  rw [loadPaths_eq]
  constructor
  case nodup => exact h
  case modules_sublist =>
    rw [hmodules]
    exact List.filter_sublist
  case errors_sublist =>
    rw [herrors]
    exact List.filter_sublist
  case complementary =>
    rw [hmodules, herrors]
    exact List.filter_append_perm _ _
  case loaded_iff =>
    intro path hpath
    rw [hmodules, List.mem_filter, Option.isSome_iff_exists]
    simp [hpath, loaded?_eq_some]
  case content =>
    intro file hfile
    obtain ⟨path, _, hpath⟩ := List.mem_filterMap.mp hfile
    obtain ⟨m, hm, rfl⟩ := loaded?_eq_some.mp hpath
    exact ⟨m, rfl, hm⟩
  case cause =>
    intro e he
    obtain ⟨path, _, hpath⟩ := List.mem_filterMap.mp he
    obtain ⟨hfail, rfl⟩ := loadError?_eq_some.mp hpath
    exact LoadFailure.explains hfail

def LoadAnswer (fs : Files) (paths : List ByteString) (listFile : ByteString) :
    Except LoadingError Loaded → Prop
  | .error (.list _) => ∀ listed, ¬ Listed fs listFile listed
  | .error .noInput => paths = [] ∧ Listed fs listFile []
  | .error .cancelled => False
  | .ok l => ∃ listed, Listed fs listFile listed ∧ paths ++ listed ≠ [] ∧
      Partition fs (paths ++ listed).eraseDups l

/-- Loading ends, and its answer does not depend on how many workers it has and in which order they
take their steps: it partitions the inputs, unless the list file cannot be used or there is no
input. -/
theorem loading_partitions (fs : Files) (paths : List ByteString) (listFile : ByteString)
    (concurrency : Int) (machine : Capacity) :
    (∀ inputs : List ByteString,
      Pool.Ends fs inputs.get (Capacity.ofRequest concurrency machine)) ∧
    (∀ answer, Loads fs (Capacity.ofRequest concurrency machine) paths listFile answer ↔
      answer = loadModules fs paths listFile false) ∧
    LoadAnswer fs paths listFile (loadModules fs paths listFile false) := by
  refine ⟨fun inputs => Pool.ends fs inputs.get _, fun answer => loads_iff, ?_⟩
  rw [loadModules_eq, requested]
  cases hlisted : listedPaths fs listFile with
  | error e =>
    intro listed h
    rw [listedPaths_eq_ok.mpr h] at hlisted
    cases hlisted
  | ok listed =>
    have h := listedPaths_eq_ok.mp hlisted
    dsimp only
    rw [firstOccurrences_eq]
    split
    · next hempty =>
      have hnone : paths ++ listed = [] := by
        apply List.eq_nil_iff_forall_not_mem.mpr
        intro path hpath
        have hfirst := List.mem_eraseDups.mpr hpath
        rw [List.isEmpty_iff.mp hempty] at hfirst
        cases hfirst
      obtain ⟨rfl, rfl⟩ := List.append_eq_nil_iff.mp hnone
      exact ⟨rfl, h⟩
    · next hsome =>
      refine ⟨listed, h, ?_, loadPaths_partition fs (nodup_eraseDups _)⟩
      intro hnone
      simp [hnone] at hsome

end CallTargets
