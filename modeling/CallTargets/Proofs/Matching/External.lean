import CallTargets.Proofs.Discovery.Reordering
import CallTargets.Proofs.Matching.FirstPhase
import CallTargets.Proofs.Matching.Registered

/-!
# External names on record

An external name stands for its strong body, or else for its first body, and every reference to the
name is recorded under that body. The main statement is that at no end of a run an external name
that has a body is on record twice, or twice among the targets of a call. A name without a body
stands for nothing: each module that takes its address has a record of its own.
-/
namespace CallTargets

open IR

/-! ### The body that a name stands for -/

namespace Program

/-- No external name has two bodies of which neither can be replaced. -/
def OneStrong (p : Program) : Prop :=
  ∀ s ∈ p.symbols, ∀ t ∈ p.symbols, s.isLocal = false → t.isLocal = false → s.isStrong →
    t.isStrong → s.name = t.name → s = t

instance (p : Program) : Decidable p.OneStrong :=
  inferInstanceAs (Decidable (∀ s ∈ p.symbols, ∀ t ∈ p.symbols, s.isLocal = false →
    t.isLocal = false → s.isStrong → t.isStrong → s.name = t.name → s = t))

def Defines (p : Program) (name : ByteString) : Prop :=
  ∃ s ∈ p.symbols, s.isDefinition ∧ s.name = name

instance (p : Program) (name : ByteString) : Decidable (p.Defines name) :=
  inferInstanceAs (Decidable (∃ s ∈ p.symbols, s.isDefinition ∧ s.name = name))

end Program

namespace Context

/-- A body that cannot be replaced is not given up for another. -/
theorem get?_enter_strong (defs : Assoc ByteString Symbol) (a : Symbol) {name : ByteString}
    (h : (∃ t, defs.get? name = some t ∧ t.isDiscardable = false) ∨
      a.isDefinition ∧ a.isDiscardable = false ∧ a.name = name) :
    ∃ t, (enter defs a).get? name = some t ∧ t.isDiscardable = false := by
  have hother (hne : a.name ≠ name) : ∃ t, defs.get? name = some t ∧ t.isDiscardable = false :=
    h.resolve_right fun ha => hne ha.2.2
  have hput (hself : a.name = name → a.isDiscardable = false) :
      ∃ t, (defs.put a.name a).get? name = some t ∧ t.isDiscardable = false := by
    rw [Assoc.get?_put]
    by_cases hname : a.name = name
    · exact ⟨a, by rw [if_pos hname], hself hname⟩
    · rw [if_neg hname]
      exact hother hname
  unfold enter
  split
  · next ha =>
    refine h.resolve_right fun hdef => ?_
    simp [Symbol.isDefinition] at hdef
    simp [hdef] at ha
  · split
    · next hnone =>
      refine hput ?_
      rintro rfl
      rcases h with ⟨t, ht, -⟩ | ha
      · rw [hnone] at ht
        cases ht
      · exact ha.2.1
    · next known hknown =>
      split
      · next hreplace =>
        refine hput fun _ => ?_
        simp only [Bool.and_eq_true, Bool.not_eq_true'] at hreplace
        exact hreplace.2
      · next hkeep =>
        rcases h with h | ⟨-, hstrong, rfl⟩
        · exact h
        · refine ⟨known, hknown, ?_⟩
          simpa [hstrong] using hkeep

theorem get?_foldl_enter_strong {symbols : List Symbol} {defs : Assoc ByteString Symbol}
    {name : ByteString}
    (h : (∃ t, defs.get? name = some t ∧ t.isDiscardable = false) ∨
      ∃ s ∈ symbols, s.isDefinition ∧ s.isDiscardable = false ∧ s.name = name) :
    ∃ t, (symbols.foldl enter defs).get? name = some t ∧ t.isDiscardable = false := by
  induction symbols generalizing defs with
  | nil => simpa using h
  | cons a symbols ih =>
    apply ih
    rcases h with h | ⟨s, hs, hstrong⟩
    · exact .inl (get?_enter_strong defs a (.inl h))
    · rcases List.mem_cons.mp hs with rfl | hs
      · exact .inl (get?_enter_strong defs s (.inr hstrong))
      · exact .inr ⟨s, hs, hstrong⟩

end Context

namespace Program

variable {p : Program}

theorem definition?_eq_none_iff {name : ByteString} :
    p.definition? name = none ↔ ¬ p.Defines name := by
  constructor
  · rintro hnone ⟨s, hs, hdef⟩
    have hsome : (p.definition? name).isSome := Context.isSome_foldl_enter (.inr ⟨s, hs, hdef⟩)
    rw [hnone] at hsome
    cases hsome
  · intro hdef
    cases hs : p.definition? name with
    | none => rfl
    | some s => exact absurd ⟨s, definition?_sound hs⟩ hdef

theorem definition?_of_strong (hone : p.OneStrong) {s : Symbol} (hs : s ∈ p.symbols)
    (hlocal : s.isLocal = false) (hstrong : s.isStrong = true) :
    p.definition? s.name = some s := by
  obtain ⟨hbody, hkept⟩ : s.hasBody = true ∧ s.isDiscardable = false := by
    simpa [Symbol.isStrong] using hstrong
  obtain ⟨t, ht, htkept⟩ : ∃ t, p.definition? s.name = some t ∧ t.isDiscardable = false :=
    Context.get?_foldl_enter_strong
      (.inr ⟨s, hs, by simp [Symbol.isDefinition, hbody, hlocal], hkept, rfl⟩)
  obtain ⟨htmem, htdef, htname⟩ := definition?_sound ht
  obtain ⟨htbody, htlocal⟩ : t.hasBody = true ∧ t.isLocal = false := by
    simpa [Symbol.isDefinition] using htdef
  have hsame : t = s := hone t htmem s hs htlocal hlocal
    (by simp [Symbol.isStrong, htbody, htkept]) hstrong htname
  rw [← hsame, htname]
  exact hsame ▸ ht

end Program

namespace Pass

variable {p : Program}

/-- A local function and a strong body stand for themselves, and so does what has a name without a
body. -/
theorem home?_eq {module func : Nat} {a : Symbol} (ha : p.symbol? ⟨module, func⟩ = some a) :
    (Pass.ofProgram p).home? module func =
      some (if a.isLocal || a.isStrong then a else (p.definition? a.name).getD a) := by
  change (p.symbol? ⟨module, func⟩).map _ = _
  rw [ha]
  rfl

/-- An external function that stands for others is what its name stands for, if that has a body. -/
theorem definition?_of_home? (hone : p.OneStrong) {module func : Nat} {s : Symbol}
    (h : (Pass.ofProgram p).home? module func = some s) (hlocal : s.isLocal = false)
    (hdef : p.Defines s.name) : p.definition? s.name = some s := by
  obtain ⟨a, ha, -⟩ := Option.map_eq_some_iff.mp h
  change p.symbol? ⟨module, func⟩ = some a at ha
  have hmem : a ∈ p.symbols := Program.mem_symbols_iff.mpr (Program.id_of_symbol? ha ▸ ha)
  rw [home?_eq ha, Option.some.injEq] at h
  split at h
  · next hself =>
    subst h
    have hstrong : a.isStrong = true := by simpa [hlocal] using hself
    exact Program.definition?_of_strong hone hmem hlocal hstrong
  · cases ht : p.definition? a.name with
    | none =>
      rw [ht, Option.getD_none] at h
      subst h
      exact absurd hdef (Program.definition?_eq_none_iff.mp ht)
    | some t =>
      rw [ht, Option.getD_some] at h
      subst h
      rw [(Program.definition?_sound ht).2.2]
      exact ht

/-- What stands for an external function is external and has its name; it is the function itself if
the name has no body. -/
theorem exists_home? {s : Symbol} (hs : s ∈ p.symbols) (hlocal : s.isLocal = false) :
    ∃ t, (Pass.ofProgram p).home? s.id.module s.id.index = some t ∧ t.name = s.name ∧
      t.isLocal = false ∧ (¬ p.Defines s.name → t = s) := by
  refine ⟨_, home?_eq (Program.mem_symbols_iff.mp hs), ?_⟩
  split
  · exact ⟨rfl, hlocal, fun _ => rfl⟩
  · cases ht : p.definition? s.name with
    | none => exact ⟨rfl, hlocal, fun _ => rfl⟩
    | some t =>
      obtain ⟨htmem, htdef, htname⟩ := Program.definition?_sound ht
      obtain ⟨-, htlocal⟩ : t.hasBody = true ∧ t.isLocal = false := by
        simpa [Symbol.isDefinition] using htdef
      exact ⟨htname, htlocal, fun hdef => absurd ⟨t, htmem, htdef, htname⟩ hdef⟩

end Pass

def Target.isExternal (p : Program) (t : Target) : Bool :=
  (p.symbol? t.id).any fun s => !s.isLocal

/-! ### Records -/

namespace Pass

variable {p : Program}

theorem blank_of_symbol? {pass : Pass} {s : Symbol} (h : pass.program.symbol? s.id = some s) :
    (pass.blank s.id).name = s.name ∧ (pass.blank s.id).isLocal = s.isLocal := by
  obtain ⟨f, hf, hof⟩ := Option.map_eq_some_iff.mp h
  rw [blank, hf]
  exact ⟨congrArg Symbol.name hof, congrArg Symbol.isLocal hof⟩

/-- A record belongs to a function that stands for others. -/
theorem Registered.symbol {pass : Pass} {c : Context} (h : pass.Registered c) {fi : FuncInfo}
    (hfi : fi ∈ c.addressTaken) :
    ∃ module func s, pass.home? module func = some s ∧ s.id = fi.id ∧ s.name = fi.name ∧
      s.isLocal = fi.isLocal := by
  rw [h.indexed.mem_addressTaken] at hfi
  obtain ⟨module, func, hhome⟩ := h.home fi.id fi hfi
  obtain ⟨s, hs, hid⟩ := Option.map_eq_some_iff.mp hhome
  obtain ⟨hname, hlocal⟩ := blank_of_symbol? (home?_symbol hs)
  have hsame := h.same fi.id fi hfi
  rw [hid] at hname hlocal
  exact ⟨module, func, s, hs, hid, by rw [← hname, hsame.name], by rw [← hlocal, hsame.isLocal]⟩

theorem Registered.module_eq {pass : Pass} {c : Context} (h : pass.Registered c) {fi : FuncInfo}
    (hfi : fi ∈ c.addressTaken) : fi.module = pass.program.path fi.id.module := by
  obtain ⟨module, func, s, hs, hid, -, -⟩ := h.symbol hfi
  obtain ⟨f, hf, -⟩ := Option.map_eq_some_iff.mp (home?_symbol hs)
  rw [hid] at hf
  have hmodule : (pass.blank fi.id).module = pass.program.path fi.id.module := by
    rw [blank, hf]
    rfl
  exact (h.same fi.id fi (h.indexed.mem_addressTaken.mp hfi)).module.trans hmodule

/-- A function whose address a module takes is on record for the function that stands for it. -/
theorem info?_of_taken (pass : Pass) (config : Config) {ms : List Nat} {module f : Nat}
    {how : Escapes} {s : Symbol} (hmodule : module ∈ ms)
    (hfact : .taken f how ∈ pass.facts module) (hs : pass.home? module f = some s) :
    ∃ fi, (pass.gathered config ms).info? s.id = some fi ∧ (pass.blank s.id).SameFunc fi := by
  have hsubject : pass.subject? module (.taken f how) = some s.id := by
    rw [subject?, Fact.func?, Option.bind_some, hs, Option.map_some]
  have hmem : .taken f how ∈ pass.history ms s.id :=
    List.mem_flatMap.mpr ⟨module, hmodule, List.mem_filter.mpr ⟨hfact, by simpa using hsubject⟩⟩
  rw [gathered_info?, if_neg (List.ne_nil_of_mem hmem)]
  exact ⟨_, rfl, FuncInfo.foldl_learn_sameFunc _ _⟩

theorem Registered.eq_of_external (hone : p.OneStrong) {c : Context}
    (h : (Pass.ofProgram p).Registered c) {fi fi' : FuncInfo} (hfi : fi ∈ c.addressTaken)
    (hfi' : fi' ∈ c.addressTaken) (hlocal : fi.isLocal = false) (hlocal' : fi'.isLocal = false)
    (hname : fi.name = fi'.name) (hdef : p.Defines fi.name) : fi = fi' := by
  obtain ⟨module, func, s, hs, hid, hsname, hslocal⟩ := h.symbol hfi
  obtain ⟨module', func', s', hs', hid', hsname', hslocal'⟩ := h.symbol hfi'
  have hbody := definition?_of_home? hone hs (hslocal.trans hlocal) (hsname ▸ hdef)
  have hbody' := definition?_of_home? hone hs' (hslocal'.trans hlocal')
    (hsname' ▸ hname ▸ hdef)
  rw [hsname] at hbody
  rw [hsname', ← hname, hbody] at hbody'
  have hids : fi.id = fi'.id := by
    rw [← hid, ← hid', Option.some.inj hbody']
  rw [h.indexed.mem_addressTaken] at hfi hfi'
  rw [hids, hfi'] at hfi
  exact (Option.some.inj hfi).symm

theorem Registered.isExternal_target {c : Context} (h : (Pass.ofProgram p).Registered c)
    {fi : FuncInfo} (hfi : fi ∈ c.addressTaken) : fi.target.isExternal p = !fi.isLocal := by
  obtain ⟨module, func, s, hs, hid, -, hlocal⟩ := h.symbol hfi
  have hsymbol : p.symbol? fi.id = some s := hid ▸ home?_symbol hs
  rw [Target.isExternal, FuncInfo.target, hsymbol, Option.any_some, hlocal]

theorem Registered.records_apart (hone : p.OneStrong) {c : Context}
    (h : (Pass.ofProgram p).Registered c) :
    c.addressTaken.Pairwise fun fi fi' => fi.isLocal = false → fi'.isLocal = false →
      fi.name = fi'.name → ¬ p.Defines fi.name := by
  refine (List.Nodup.of_map _ h.indexed.addressTaken_nodup).imp_of_mem ?_
  intro fi fi' hfi hfi' hne hlocal hlocal' hname hdef
  exact hne (h.eq_of_external hone hfi hfi' hlocal hlocal' hname hdef)

theorem Registered.targets_apart (hone : p.OneStrong) {c : Context}
    (h : (Pass.ofProgram p).Registered c) {cs : CallSite} (hcs : cs ∈ c.callSites) :
    cs.callees.Pairwise fun t t' => t.isExternal p → t'.isExternal p → t.name = t'.name →
      ¬ p.Defines t.name := by
  have hsite := h.indexed.mem_callSites.mp hcs
  refine (h.nodup cs.id cs hsite).imp_of_mem ?_
  intro t t' ht ht' hne hext hext' hname hdef
  obtain ⟨fi, hfi, rfl⟩ := h.target cs.id cs hsite t ht
  obtain ⟨fi', hfi', rfl⟩ := h.target cs.id cs hsite t' ht'
  have hmem : fi ∈ c.addressTaken := h.indexed.mem_addressTaken.mpr hfi
  have hmem' : fi' ∈ c.addressTaken := h.indexed.mem_addressTaken.mpr hfi'
  rw [h.isExternal_target hmem, Bool.not_eq_true'] at hext
  rw [h.isExternal_target hmem', Bool.not_eq_true'] at hext'
  have hsame := h.eq_of_external hone hmem hmem' hext hext' hname hdef
  exact hne (congrArg FuncInfo.target hsame)

/-- An external function whose address its module takes is on record under its name. -/
theorem Resolved.exists_record {config : Config} {c : Context}
    (h : (Pass.ofProgram p).Resolved config (List.range p.length) c) {s : Symbol}
    (hs : s ∈ p.symbols) (hlocal : s.isLocal = false) {how : Escapes}
    (hfact : .taken s.id.index how ∈ (Pass.ofProgram p).facts s.id.module) :
    ∃ fi ∈ c.addressTaken, fi.name = s.name ∧ fi.isLocal = false ∧
      (¬ p.Defines s.name → fi.id = s.id) := by
  have hmodule : s.id.module ∈ List.range p.length :=
    List.mem_range.mpr (Program.lt_of_symbol? (Program.mem_symbols_iff.mp hs))
  obtain ⟨t, ht, htname, htlocal, hself⟩ := exists_home? hs hlocal
  obtain ⟨fi, hfi, hsame⟩ := (Pass.ofProgram p).info?_of_taken config hmodule hfact ht
  obtain ⟨hname, hext⟩ := blank_of_symbol? (home?_symbol ht)
  have hindexed := (Pass.ofProgram p).gathered_indexed config (List.range p.length)
  have hid : fi.id = t.id := hindexed.funcs.key_eq t.id fi hfi
  rw [h.addressTaken_eq]
  refine ⟨fi, hindexed.mem_addressTaken.mpr (hid ▸ hfi), ?_, ?_, fun hdef => ?_⟩
  · rw [hsame.name, hname, htname]
  · rw [hsame.isLocal, hext, htlocal]
  · rw [hid, hself hdef]

end Pass

/-- An external name that has a body is never on record twice, and never twice among the targets of
a call, however a run ends. After a success every external name whose address is taken is on record,
and a function whose name has no body is on record for itself. -/
theorem external_recorded_once {p : Program} (hpaths : (p.map ModuleFile.path).Nodup)
    (hone : p.OneStrong) :
    (∀ (d : Driver PassState Nat NoSignature) (ms : List Nat) (config : Config),
      d.pass = (Pass.ofProgram p).modulePass →
      let c := (d.run ms ((Pass.ofProgram p).start config)).state.context
      (c.addressTaken.Pairwise fun fi fi' => fi.isLocal = false → fi'.isLocal = false →
        fi.name = fi'.name → ¬ p.Defines fi.name) ∧
      ∀ cs ∈ c.callSites, cs.callees.Pairwise fun t t' => t.isExternal p → t'.isExternal p →
        t.name = t'.name → ¬ p.Defines t.name) ∧
    ∀ options fs r, analyze options fs p = .ok r → ∀ s ∈ p.symbols, s.isLocal = false →
      (∃ how, Fact.taken s.id.index how ∈ (Pass.ofProgram p).facts s.id.module) →
      ∃ fi ∈ r.context.addressTaken, fi.name = s.name ∧ fi.isLocal = false ∧
        (¬ p.Defines s.name → fi.id = s.id) := by
  constructor
  · intro d ms config hd
    have hregistered := Pass.run_registered hd ms config
    exact ⟨hregistered.records_apart hone, fun cs hcs => hregistered.targets_apart hone hcs⟩
  · rintro options fs r h s hs hlocal ⟨how, hfact⟩
    exact (analyze_resolved hpaths h).exists_record hs hlocal hfact

/-! ### A program with a missing definition -/

namespace Missing

def declared (name : String) : Func := { Table.func name .unspecified [] [] with blocks := [] }

def holder (name : String) (f : Nat) : Global :=
  ⟨.named name, .unspecified, 0, Table.hook, some (.func f)⟩

/-- Takes the addresses of two declared functions and calls what it is given. -/
def caller : Module := { Module.empty with
  globals := [holder "first" 0, holder "second" 1]
  funcs := [declared "absent", declared "present", Table.func "run" .unspecified [Table.hook]
    [⟨.call ⟨some (.param 0), some .void, []⟩, .void, []⟩]] }

/-- Takes the addresses of a declared function and of a copy that can be replaced. -/
def copier : Module := { Module.empty with
  globals := [holder "third" 0, holder "fourth" 1]
  funcs := [declared "absent", Table.func "present" .weak [] []] }

def owner : Module := { Module.empty with
  globals := [holder "fifth" 0]
  funcs := [Table.func "present" .unspecified [] []] }

def program : Program := [⟨"caller", some caller⟩, ⟨"copier", some copier⟩, ⟨"owner", some owner⟩]

/-- The call reaches the function with a body once, and the other one for each declaration. -/
def reached : List (Layer × List ByteString) := [(.signature, ["absent", "absent", "present"])]

end Missing

theorem external_recorded_once_missing :
    (Missing.program.map ModuleFile.path).Nodup ∧ Missing.program.OneStrong ∧
      Missing.program.Defines "present" ∧ ¬ Missing.program.Defines "absent" ∧
      Missing.program.targets .standard = some Missing.reached ∧
      ∃ r, analyze ⟨.standard, ""⟩ default Missing.program = .ok r ∧
        (∃ fi ∈ r.context.addressTaken, fi.id = ⟨0, 0⟩) ∧
        ∃ fi ∈ r.context.addressTaken, fi.id = ⟨1, 0⟩ := by
  have hpaths : (Missing.program.map ModuleFile.path).Nodup := by decide +kernel
  have hone : Missing.program.OneStrong := by decide +kernel
  have habsent : ¬ Missing.program.Defines "absent" := by decide +kernel
  have htargets : Missing.program.targets .standard = some Missing.reached := by decide +kernel
  obtain ⟨r, hr, -⟩ := Program.targets_eq_some htargets
  have hown := (external_recorded_once hpaths hone).2 _ _ r hr
  refine ⟨hpaths, hone, by decide +kernel, habsent, htargets, r, hr, ?_, ?_⟩
  · obtain ⟨fi, hfi, -, -, hid⟩ := hown ⟨⟨0, 0⟩, "absent", .unspecified, false⟩
      (by decide +kernel) rfl ⟨.global, by decide +kernel⟩
    exact ⟨fi, hfi, hid habsent⟩
  · obtain ⟨fi, hfi, -, -, hid⟩ := hown ⟨⟨1, 0⟩, "absent", .unspecified, false⟩
      (by decide +kernel) rfl ⟨.global, by decide +kernel⟩
    exact ⟨fi, hfi, hid habsent⟩

end CallTargets
