import CallTargets.Proofs.Matching.Declarative

/-!
# Source files below a root

Repeated slashes and a slash at the end do not count when paths are compared. The main statement is
that the path shown for a position, which is also the one its line is read from, is the recorded
name joined to the root, however many slashes the root ends with. The one exception is the root that
is a single slash: a relative name is not joined to it and stays relative.
-/
namespace CallTargets

namespace Path

def tidy (path : ByteString) : ByteString :=
  ofRoute (origin path ++ (names path).filter fun name => !name.isEmpty)

example : tidy "//src/./fs///open.c/" = "/src/./fs/open.c" := by decide +kernel

def top : ByteString := ⟨[slash]⟩

/-! ### Names -/

theorem splitAt_append (reversed l r : List UInt8) :
    names.splitAt reversed (l ++ slash :: r) =
      names.splitAt reversed l ++ names.splitAt [] r := by
  induction l generalizing reversed with
  | nil => simp [names.splitAt]
  | cons b l ih => by_cases hb : b = slash <;> simp [names.splitAt, hb, ih]

theorem names_join (dir path : ByteString) : names (join dir path) = names dir ++ names path :=
  splitAt_append [] dir.bytes path.bytes

theorem not_mem_of_mem_splitAt {reversed l : List UInt8} (h : slash ∉ reversed) :
    ∀ name ∈ names.splitAt reversed l, slash ∉ name.bytes := by
  induction l generalizing reversed with
  | nil => simpa [names.splitAt] using h
  | cons b l ih =>
    by_cases hb : b = slash
    · simpa [names.splitAt, hb, h] using ih List.not_mem_nil
    · simpa [names.splitAt, hb] using ih (by simp [h, Ne.symm hb])

/-! ### Absolute paths -/

theorem isAbsolute_join (dir path : ByteString) :
    isAbsolute (join dir path) = (dir.isEmpty || isAbsolute dir) := by
  obtain ⟨_ | ⟨b, bytes⟩⟩ := dir
  · simp [isAbsolute, join, ByteString.isEmpty]
  · simp [isAbsolute, join, ByteString.isEmpty]

theorem isAbsolute_foldl_join (rest : List ByteString) {name : ByteString}
    (h : name.isEmpty = false) : isAbsolute (rest.foldl join name) = isAbsolute name := by
  induction rest generalizing name with
  | nil => rfl
  | cons next rest ih =>
    rw [List.foldl_cons, ih (by simp [join, ByteString.isEmpty]), isAbsolute_join, h,
      Bool.false_or]

theorem isAbsolute_of_not_mem {name : ByteString} (h : slash ∉ name.bytes) :
    isAbsolute name = false := by
  obtain ⟨_ | ⟨b, bytes⟩⟩ := name
  · rfl
  · have hb : b ≠ slash := by
      rintro rfl
      exact h List.mem_cons_self
    simp [isAbsolute, hb]

theorem isAbsolute_tidy (path : ByteString) : isAbsolute (tidy path) = isAbsolute path := by
  have hnames : ∀ name ∈ (names path).filter fun name => !name.isEmpty,
      name.isEmpty = false ∧ slash ∉ name.bytes := by
    intro name hname
    obtain ⟨hmem, hne⟩ := List.mem_filter.mp hname
    exact ⟨by simpa using hne, not_mem_of_mem_splitAt List.not_mem_nil name hmem⟩
  rw [tidy]
  generalize (names path).filter (fun name => !name.isEmpty) = shown at hnames ⊢
  cases hpath : isAbsolute path with
  | true =>
    cases shown with
    | nil => simp only [origin, hpath]; rfl
    | cons name rest =>
      -- Behind the empty name of an absolute route the first join writes the slash.
      simp only [origin, hpath, if_true, List.cons_append, List.nil_append, ofRoute,
        List.isEmpty_cons, Bool.and_false, Bool.false_eq_true, if_false, List.foldl_cons]
      rw [isAbsolute_foldl_join rest (by simp [join, ByteString.isEmpty]), isAbsolute_join]
      rfl
  | false =>
    cases shown with
    | nil => simp only [origin, hpath]; rfl
    | cons name rest =>
      obtain ⟨hne, hslash⟩ := hnames name List.mem_cons_self
      simp only [origin, hpath, Bool.false_eq_true, if_false, List.nil_append, ofRoute, hne,
        Bool.false_and]
      rw [isAbsolute_foldl_join rest hne, isAbsolute_of_not_mem hslash]

theorem tidy_congr {path path' : ByteString} (habs : isAbsolute path = isAbsolute path')
    (hnames : (names path).filter (fun name => !name.isEmpty) =
      (names path').filter fun name => !name.isEmpty) : tidy path = tidy path' := by
  rw [tidy, tidy, origin, origin, habs, hnames]

/-! ### Names below a root -/

theorem below_slash (dir : ByteString) {file : ByteString} (hfile : file.isEmpty = false)
    (hrel : isAbsolute file = false) :
    below ⟨dir.bytes ++ [slash]⟩ file = if dir.isEmpty then file else join dir file := by
  simp only [below, hfile, hrel, Bool.or_self, Bool.false_eq_true, if_false,
    List.getLast?_concat, BEq.rfl, if_true, List.dropLast_concat]

/-- How a relative name is put below a root: nothing is left of the root that is a slash. -/
theorem below_cases {root file : ByteString} (hroot : root.isEmpty = false)
    (hfile : file.isEmpty = false) (hrel : isAbsolute file = false) :
    root = top ∧ below root file = file ∨ below root file = join root file ∨
      ∃ dir : ByteString, dir.isEmpty = false ∧ root = ⟨dir.bytes ++ [slash]⟩ ∧
        below root file = join dir file := by
  by_cases hlast : root.bytes.getLast? = some slash
  · obtain ⟨dir, hdir⟩ := List.getLast?_eq_some_iff.mp hlast
    obtain rfl : root = ⟨dir ++ [slash]⟩ := by
      cases root
      cases hdir
      rfl
    have hbelow := below_slash ⟨dir⟩ hfile hrel
    cases hempty : (⟨dir⟩ : ByteString).isEmpty with
    | true =>
      rw [hempty] at hbelow
      obtain rfl : dir = [] := by simpa [ByteString.isEmpty] using hempty
      exact .inl ⟨rfl, hbelow⟩
    | false =>
      rw [hempty] at hbelow
      exact .inr (.inr ⟨⟨dir⟩, hempty, rfl, hbelow⟩)
  · have hbelow : below root file = join root file := by
      simp only [below, hfile, hrel, hroot, Bool.or_self, Bool.false_eq_true, if_false,
        beq_iff_eq, hlast]
    exact .inr (.inl hbelow)

theorem tidy_below {root file : ByteString} (hroot : root.isEmpty = false)
    (hfile : file.isEmpty = false) (hrel : isAbsolute file = false) (htop : root ≠ top) :
    tidy (below root file) = tidy (join root file) := by
  rcases below_cases hroot hfile hrel with ⟨h, -⟩ | h | ⟨dir, hdir, rfl, h⟩
  · exact absurd h htop
  · rw [h]
  · -- The slash at the end of the root stands for one empty name more.
    have hnames : names ⟨dir.bytes ++ [slash]⟩ = names dir ++ [⟨[]⟩] :=
      splitAt_append [] dir.bytes []
    have habs : isAbsolute ⟨dir.bytes ++ [slash]⟩ = isAbsolute dir := by
      simpa [hdir, join] using isAbsolute_join dir ⟨[]⟩
    rw [h]
    apply tidy_congr
    · rw [isAbsolute_join, isAbsolute_join, habs, hdir, hroot]
    · simp [names_join, hnames, ByteString.isEmpty]

theorem isAbsolute_below {root file : ByteString} (hroot : root.isEmpty = false)
    (hfile : file.isEmpty = false) (hrel : isAbsolute file = false) (htop : root ≠ top) :
    isAbsolute (below root file) = isAbsolute root := by
  have htidy := congrArg isAbsolute (tidy_below hroot hfile hrel htop)
  rwa [isAbsolute_tidy, isAbsolute_tidy, isAbsolute_join, hroot, Bool.false_or] at htidy

theorem below_top {file : ByteString} (hfile : file.isEmpty = false)
    (hrel : isAbsolute file = false) : below top file = file :=
  below_slash ⟨[]⟩ hfile hrel

end Path

namespace Source

/-! ### Lines of a file system -/

def lineIn (fs : Files) (path : ByteString) (line : Int) : Option String :=
  (readLines fs path)[(line - 1).toNat]?.map trimIndent

/-- What is remembered of the files below a root is what they hold. -/
structure Reads (fs : Files) (root : ByteString) (s : Source) : Prop where
  root : s.root = root
  files : ∀ path lines, s.files.get? path = some lines → lines = readLines fs path

variable {fs : Files} {root : ByteString} {s : Source}

theorem ofRoot_reads (fs : Files) (root : ByteString) : (ofRoot root).Reads fs root :=
  ⟨rfl, fun path lines h => by cases h⟩

theorem Reads.path_eq (h : s.Reads fs root) (l : Location) : s.path l = Path.below root l.file := by
  rw [path, h.root]

/-- A line is read from the file below the root, whether the file was read before or not. -/
theorem Reads.line (h : s.Reads fs root) (l : Location) :
    (s.line fs l).2.Reads fs root ∧
      (1 ≤ l.line → l.file.isEmpty = false →
        (s.line fs l).1 = lineIn fs (Path.below root l.file) l.line) := by
  unfold Source.line
  split
  · next hnone =>
    refine ⟨h, fun hline hfile => ?_⟩
    rcases hnone with hlt | hempty
    · omega
    · rw [hfile] at hempty
      cases hempty
  · dsimp only
    rw [h.path_eq l]
    cases hknown : s.files.get? (Path.below root l.file) with
    | some known =>
      refine ⟨h, fun _ _ => ?_⟩
      rw [h.files _ _ hknown]
      rfl
    | none =>
      refine ⟨⟨h.root, fun path lines hlines => ?_⟩, fun _ _ => rfl⟩
      rw [Assoc.get?_put] at hlines
      split at hlines
      · next heq =>
        cases hlines
        rw [heq]
      · exact h.files path lines hlines

def after (s : Source) (fs : Files) (ls : List Location) : Source :=
  ls.foldl (fun s l => (s.line fs l).2) s

theorem Reads.after (h : s.Reads fs root) (ls : List Location) : (s.after fs ls).Reads fs root := by
  induction ls generalizing s with
  | nil => exact h
  | cons l ls ih => exact ih (h.line l).1

end Source

/-! ### Positions of calls -/

/-- The position of a call is reported with the path of its file below the root and with the line
that stands there. -/
structure CallResult.ShowsPlace (fs : Files) (root : ByteString) (c : CallResult) : Prop where
  path : c.location.file.isEmpty = false → c.path = Path.below root c.location.file
  source : c.location.file.isEmpty = false →
    c.source = (Source.lineIn fs c.path c.location.line).getD ""

section

variable {p : Program} {fs : Files} {root : ByteString}

theorem Readback.nameOf_source (r : Readback) (p : Program) (id : FuncId) (module : ByteString) :
    (r.nameOf p id module).2.source = r.source := by
  unfold nameOf
  split <;> rfl

theorem addTarget_place (r : Readback) (c : CallResult) (t : Target) :
    (c.addTarget p r t).1.source = r.source ∧ (c.addTarget p r t).2.location = c.location ∧
      (c.addTarget p r t).2.path = c.path ∧ (c.addTarget p r t).2.source = c.source := by
  have hname := r.nameOf_source p t.id t.module
  unfold CallResult.addTarget
  dsimp only
  split <;> exact ⟨hname, rfl, rfl, rfl⟩

theorem addTargets_place (ts : List Target) (r : Readback) (c : CallResult) :
    let out := ts.foldl (fun x t => CallResult.addTarget p x.1 x.2 t) (r, c)
    out.1.source = r.source ∧ out.2.location = c.location ∧ out.2.path = c.path ∧
      out.2.source = c.source := by
  induction ts generalizing r c with
  | nil => exact ⟨rfl, rfl, rfl, rfl⟩
  | cons t ts ih =>
    obtain ⟨hsource, hlocation, hpath, htext⟩ := addTarget_place (p := p) r c t
    obtain ⟨hsource', hlocation', hpath', htext'⟩ :=
      ih (c.addTarget p r t).1 (c.addTarget p r t).2
    exact ⟨hsource'.trans hsource, hlocation'.trans hlocation, hpath'.trans hpath,
      htext'.trans htext⟩

theorem Location.of_ofInst? {i : IR.Inst} {l : Location} (h : ofInst? i = some l) :
    1 ≤ l.line ∧ l.file.isEmpty = false := by
  unfold ofInst? at h
  split at h
  · split at h
    · cases h
    · next hknown =>
      cases h
      exact ⟨not_lt.mp (not_or.mp hknown).1, by simpa using (not_or.mp hknown).2⟩
  · cases h

/-- The caller of a call is named before its position is looked up. -/
theorem readCall_named (p : Program) (fs : Files) (r : Readback) (cs : CallSite) :
    ∃ r' caller, r'.source = r.source ∧
      let c : CallResult := ⟨caller, cs.module, .unknown, "", "", cs.layer, [], []⟩
      readCall p fs r cs =
        cs.callees.foldl (fun x t => CallResult.addTarget p x.1 x.2 t)
          (match (p.call? cs.id).bind Location.ofInst? with
          | some l => ({ r' with source := (r'.source.line fs l).2 },
              { c with location := l, path := r'.source.path l,
                       source := (r'.source.line fs l).1.getD "" })
          | none => (r', c)) := by
  unfold readCall
  cases cs.caller with
  | none => exact ⟨r, "", rfl, rfl⟩
  | some f =>
    exact ⟨(r.nameOf p f cs.module).2, (r.nameOf p f cs.module).1,
      r.nameOf_source p f cs.module, rfl⟩

theorem readCall_place {r : Readback} (hr : r.source.Reads fs root) (cs : CallSite) :
    (readCall p fs r cs).1.source.Reads fs root ∧ (readCall p fs r cs).2.ShowsPlace fs root := by
  obtain ⟨r', caller, hsource, hread⟩ := readCall_named p fs r cs
  rw [← hsource] at hr
  rw [hread]
  cases hl : (p.call? cs.id).bind Location.ofInst? with
  | none =>
    dsimp only
    obtain ⟨hkeep, hlocation, -⟩ := addTargets_place (p := p) cs.callees r'
      ⟨caller, cs.module, .unknown, "", "", cs.layer, [], []⟩
    refine ⟨by rw [hkeep]; exact hr, ⟨fun hfile => ?_, fun hfile => ?_⟩⟩
    all_goals
      rw [hlocation] at hfile
      cases hfile
  | some l =>
    obtain ⟨i, -, hi⟩ := Option.bind_eq_some_iff.mp hl
    obtain ⟨hline, hfile⟩ := Location.of_ofInst? hi
    obtain ⟨hreads, htext⟩ := hr.line l
    dsimp only
    obtain ⟨hkeep, hlocation, hpath, hshown⟩ := addTargets_place (p := p) cs.callees
      { r' with source := (r'.source.line fs l).2 }
      ⟨caller, cs.module, l, r'.source.path l, (r'.source.line fs l).1.getD "", cs.layer, [], []⟩
    refine ⟨by rw [hkeep]; exact hreads, ⟨fun _ => ?_, fun _ => ?_⟩⟩
    · rw [hpath, hlocation]
      exact hr.path_eq l
    · rw [hshown, hpath, hlocation, hr.path_eq l, htext hline hfile]

theorem readCalls_place {r : Readback} (hr : r.source.Reads fs root) (calls : List CallSite) :
    ∀ c ∈ readCalls p fs r calls, c.ShowsPlace fs root := by
  induction calls generalizing r with
  | nil => simp [readCalls]
  | cons cs calls ih =>
    obtain ⟨hreads, hplace⟩ := readCall_place (p := p) hr cs
    simp only [readCalls, List.forall_mem_cons]
    exact ⟨hplace, ih hreads⟩

end

/-- A relative file name is found below the root, slashes repeated or at the end apart, exactly if
the root is not a single slash, and only then is its path absolute whenever the root is. This is
the path that lines are read from, also after other lines were read, and the path that an analysis
reports. -/
theorem source_paths_below_root (root file : ByteString) (hroot : root.isEmpty = false)
    (hfile : file.isEmpty = false) (hrel : Path.isAbsolute file = false) :
    (Path.tidy (Path.below root file) = Path.tidy (Path.join root file) ↔ root ≠ Path.top) ∧
    (Path.isAbsolute (Path.below root file) ↔ Path.isAbsolute root ∧ root ≠ Path.top) ∧
    (∀ fs earlier line, let s := (Source.ofRoot root).after fs earlier
      s.path ⟨file, line⟩ = Path.below root file ∧
        (1 ≤ line → (s.line fs ⟨file, line⟩).1 = Source.lineIn fs (Path.below root file) line)) ∧
    ∀ config fs p r, analyze ⟨config, root⟩ fs p = .ok r → ∀ c ∈ r.calls, c.location.file = file →
      c.path = Path.below root file ∧
        c.source = (Source.lineIn fs c.path c.location.line).getD "" := by
  have htop : root = Path.top → Path.isAbsolute (Path.below root file) = false := by
    rintro rfl
    rw [Path.below_top hfile hrel, hrel]
  refine ⟨⟨?_, Path.tidy_below hroot hfile hrel⟩, ⟨?_, ?_⟩, fun fs earlier line => ?_, ?_⟩
  · rintro htidy rfl
    have habs := congrArg Path.isAbsolute htidy
    rw [Path.isAbsolute_tidy, Path.isAbsolute_tidy, htop rfl, Path.isAbsolute_join] at habs
    cases habs
  · intro habs
    have hne : root ≠ Path.top := by
      intro h
      rw [htop h] at habs
      cases habs
    exact ⟨Path.isAbsolute_below hroot hfile hrel hne ▸ habs, hne⟩
  · rintro ⟨habs, hne⟩
    exact (Path.isAbsolute_below hroot hfile hrel hne).trans habs
  · have hreads := (Source.ofRoot_reads fs root).after earlier
    exact ⟨hreads.path_eq _, fun hline => (hreads.line ⟨file, line⟩).2 hline hfile⟩
  · intro config fs p r hr c hc hloc
    obtain ⟨-, -, -, -, -, hcalls⟩ := analyze_ok hr
    rw [hcalls] at hc
    have hplace := readCalls_place (Source.ofRoot_reads fs root) _ c hc
    rw [← hloc] at hfile ⊢
    exact ⟨hplace.path hfile, hplace.source hfile⟩

theorem source_paths_below_root_slashes :
    Path.tidy (Path.below "/src//" "fs//open.c") = "/src/fs/open.c" ∧
      Path.tidy (Path.below "//" "open.c") = "/open.c" ∧
      Path.tidy (Path.below "/" "open.c") ≠ Path.tidy (Path.join "/" "open.c") := by
  have hmany := source_paths_below_root "/src//" "fs//open.c" (by decide +kernel)
    (by decide +kernel) (by decide +kernel)
  have htwo := source_paths_below_root "//" "open.c" (by decide +kernel) (by decide +kernel)
    (by decide +kernel)
  have hone := source_paths_below_root "/" "open.c" (by decide +kernel) (by decide +kernel)
    (by decide +kernel)
  refine ⟨(hmany.1.mpr (by decide +kernel)).trans (by decide +kernel),
    (htwo.1.mpr (by decide +kernel)).trans (by decide +kernel), ?_⟩
  rw [Ne, hone.1]
  decide +kernel

end CallTargets
