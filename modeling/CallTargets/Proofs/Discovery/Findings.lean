import CallTargets.Proofs.Discovery.Operands
import CallTargets.Proofs.Discovery.Order
import CallTargets.Proofs.Matching.Declarative

/-!
# What is recorded of functions

After a run that succeeds there is a record of a function exactly if a function it stands for occurs
in one of the modules, and the record tells exactly how and where. A function that is stored inside
a larger constant occurs there, but only one that is stored by itself counts as put into an exported
global.
-/
namespace CallTargets

open IR

/-- A module puts a function, alone or inside a larger constant, into a global other modules can
name. -/
inductive IR.Module.Deposits (m : Module) (f : Nat) (g : Global) : Prop
  | initial {c : Const} (global : g ∈ m.globals) (exported : g.linkage.isLocal = false)
      (init : g.init = some c) (inside : .func f ∈ c.inside)
  | stored {fn : Func} {src dst : Value} {c : Const} {n : Nat} (func : fn ∈ m.funcs)
      (store : fn.Stores src dst) (value : Frame.LeadsTo ⟨m, some fn⟩ src (.const c))
      (inside : .func f ∈ c.inside) (few : n < maxGeps)
      (address : Frame.PointsInto ⟨m, some fn⟩ g n dst) (exported : g.linkage.isLocal = false)

theorem IR.Module.Publishes.deposits {m : Module} {f : Nat} {g : Global} (h : m.Publishes f g) :
    m.Deposits f g := by
  cases h with
  | initial hg hexp hinit hf => exact .initial hg hexp hinit hf
  | stored hfn hstore hvalue hn haddr hexp =>
    exact .stored hfn hstore hvalue (Const.self_mem_inside _) hn haddr hexp

theorem IR.Func.Stores.uses {f : Func} {src dst : Value} (h : f.Stores src dst) :
    (src, .store) ∈ f.uses := by
  obtain ⟨b, hb, i, hi, hop⟩ := h
  refine List.mem_flatMap.mpr ⟨b, hb, List.mem_append_left _ (List.mem_flatMap.mpr ⟨i, hi, ?_⟩)⟩
  rw [hop]
  exact List.mem_singleton.mpr rfl

/-- A function that is put into a global occurs in the module. -/
theorem IR.Module.Deposits.exposes {m : Module} {f : Nat} {g : Global} (h : m.Deposits f g) :
    ∃ c how, m.Exposes c how ∧ .func f ∈ c.inside := by
  cases h with
  | initial hg _ hinit hf => exact ⟨_, _, .initial hg hinit, hf⟩
  | stored hfn hstore hvalue hf => exact ⟨_, _, .operand hfn hstore.uses hvalue, hf⟩

def Fact.how? : Fact → Option Escapes
  | .taken _ how => some how
  | _ => none

theorem foldl_union_how (facts : List Fact) (e : Escapes) :
    (facts.map Fact.escape).foldl Escapes.union e =
      (facts.filterMap Fact.how?).foldl Escapes.union e := by
  induction facts generalizing e with
  | nil => rfl
  | cons fact facts ih =>
    cases fact with
    | taken f how => exact ih _
    | _ =>
      rw [List.map_cons, List.foldl_cons, List.filterMap_cons_none rfl, ← ih e]
      exact congrArg (List.foldl Escapes.union · _) (Escapes.union_none e)

namespace Pass

/-! ### What the modules do with a function -/

def StandsFor (pass : Pass) (id : FuncId) (module func : Nat) : Prop :=
  (pass.home? module func).map Symbol.id = some id

def Occurs (pass : Pass) (id : FuncId) (how : Escapes) : Prop :=
  ∃ i path m f c, pass.Holds i path m ∧ pass.StandsFor id i f ∧ m.Exposes c how ∧
    .func f ∈ c.inside

def StandsIn (pass : Pass) (id : FuncId) (owner : Signature) (field : Nat) : Prop :=
  ∃ i path m f c how t fields d, pass.Holds i path m ∧ pass.StandsFor id i f ∧ m.Exposes c how ∧
    .struct t fields ∈ c.inside ∧ fields[field]? = some d ∧ d.bare = .func f ∧
    (pass.scanner i path m).view.signature t = owner

def StoredIn (pass : Pass) (id : FuncId) (owner : Signature) (field : Nat) : Prop :=
  ∃ i path m f r, pass.Holds i path m ∧ pass.StandsFor id i f ∧
    (pass.scanner i path m).StoresInField f r ∧
    (pass.scanner i path m).fieldSignature r = owner ∧ r.index = field

def IsIn (pass : Pass) (id : FuncId) (owner : Signature) (field : Nat) : Prop :=
  pass.StandsIn id owner field ∨ pass.StoredIn id owner field

def IsPublished (pass : Pass) (id : FuncId) (global : ByteString) : Prop :=
  ∃ i path m f g, pass.Holds i path m ∧ pass.StandsFor id i f ∧ m.Publishes f g ∧ g.name = global

/-- A function is put by a module, alone or inside a larger constant, into an exported global. -/
def IsDeposited (pass : Pass) (id : FuncId) (global : ByteString) : Prop :=
  ∃ i path m f g, pass.Holds i path m ∧ pass.StandsFor id i f ∧ m.Deposits f g ∧ g.name = global

/-- The record of a function tells exactly what the modules do with it. -/
structure Describes (pass : Pass) (fi : FuncInfo) : Prop where
  func : ∃ f, pass.program.func? fi.id = some f ∧ fi.name = f.name ∧ fi.sig = .ofFunc f ∧
    fi.isLocal = f.linkage.isLocal
  module : ∃ m, pass.Holds fi.id.module fi.module m
  escapes : ∃ kinds : List Escapes, (∀ how, how ∈ kinds ↔ pass.Occurs fi.id how) ∧
    fi.escapes = kinds.foldl Escapes.union .none
  evidence : ∀ d, d ∈ fi.evidence ↔
    ∃ owner field, pass.IsIn fi.id owner field ∧ FuncInfo.disc (owner, Int64.ofNat field) = d
  published : ∀ g, g ∈ fi.published ↔ pass.IsPublished fi.id g
  owners : Set.InjOn FuncInfo.disc pass.storedFields →
    ∀ o, o ∈ fi.owners ↔ ∃ field, pass.IsIn fi.id o field

/-! ### Histories -/

/-- Every module of the program is within the limits of a scan. -/
def Modest (pass : Pass) : Prop := ∀ i path m, pass.Holds i path m → m.Modest

theorem facts_of_holds {pass : Pass} {i : Nat} {path : ByteString} {m : Module}
    (h : pass.Holds i path m) : pass.facts i = (pass.scanner i path m).found .empty := by
  simp only [facts, h]

variable {pass : Pass} {ms : List Nat}

/-- The history of a function, over all modules, is what they show of it. -/
theorem mem_history (hmodest : pass.Modest) (hms : ms.Perm (List.range pass.program.length))
    {id : FuncId} {fact : Fact} (hcall : fact.call? = none) :
    fact ∈ pass.history ms id ↔ ∃ i path m, pass.Holds i path m ∧
      (pass.scanner i path m).Shows fact ∧ pass.subject? i fact = some id := by
  simp only [history, factsAbout, List.mem_flatMap, List.mem_filter, decide_eq_true_eq]
  constructor
  · rintro ⟨i, -, hfact, hid⟩
    obtain ⟨path, m, hfile⟩ | hnot := pass.holds_or_empty i
    · rw [facts_of_holds hfile] at hfact
      have hshows := (Scanner.mem_found_iff (hmodest i path m hfile) hcall).mp hfact
      exact ⟨i, path, m, hfile, hshows, hid⟩
    · rw [facts_of_empty hnot] at hfact
      cases hfact
  · rintro ⟨i, path, m, hfile, hshows, hid⟩
    have hi : i ∈ ms := by
      rw [hms.mem_iff, List.mem_range]
      exact (List.getElem?_eq_some_iff.mp hfile).1
    refine ⟨i, hi, ?_, hid⟩
    rw [facts_of_holds hfile]
    exact (Scanner.mem_found_iff (hmodest i path m hfile) hcall).mpr hshows

theorem mem_history_how (hmodest : pass.Modest) (hms : ms.Perm (List.range pass.program.length))
    {id : FuncId} {how : Escapes} :
    how ∈ (pass.history ms id).filterMap Fact.how? ↔ pass.Occurs id how := by
  rw [List.mem_filterMap]
  constructor
  · rintro ⟨fact, hfact, hhow⟩
    cases fact with
    | taken f how' =>
      cases hhow
      obtain ⟨i, path, m, hfile, hshows, hid⟩ := (mem_history hmodest hms rfl).mp hfact
      cases hshows with
      | taken hc hf => exact ⟨i, path, m, f, _, hfile, hid, hc, hf⟩
    | _ => cases hhow
  · rintro ⟨i, path, m, f, c, hfile, hid, hc, hf⟩
    exact ⟨.taken f how, (mem_history hmodest hms rfl).mpr ⟨i, path, m, hfile, .taken hc hf, hid⟩,
      rfl⟩

theorem mem_history_slot (hmodest : pass.Modest) (hms : ms.Perm (List.range pass.program.length))
    {id : FuncId} {slot : Signature × Int64} :
    slot ∈ (pass.history ms id).filterMap Fact.slot? ↔
      ∃ owner field, pass.IsIn id owner field ∧ (owner, Int64.ofNat field) = slot := by
  rw [List.mem_filterMap]
  constructor
  · rintro ⟨fact, hfact, hslot⟩
    cases fact with
    | evidence f owner field =>
      cases hslot
      refine ⟨owner, field, ?_, rfl⟩
      obtain ⟨i, path, m, hfile, hshows, hid⟩ := (mem_history hmodest hms rfl).mp hfact
      cases hshows with
      | field hc hst hd hf =>
        exact .inl ⟨i, path, m, f, _, _, _, _, _, hfile, hid, hc, hst, hd, hf, rfl⟩
      | stored hstore => exact .inr ⟨i, path, m, f, _, hfile, hid, hstore, rfl, rfl⟩
    | _ => cases hslot
  · rintro ⟨owner, field, hin, rfl⟩
    have hshown : ∃ i path m f, pass.Holds i path m ∧ pass.StandsFor id i f ∧
        (pass.scanner i path m).Shows (.evidence f owner field) := by
      rcases hin with ⟨i, path, m, f, c, how, t, fields, d, hfile, hid, hc, hst, hd, hf, rfl⟩ |
        ⟨i, path, m, f, r, hfile, hid, hstore, rfl, rfl⟩
      · exact ⟨i, path, m, f, hfile, hid, .field hc hst hd hf⟩
      · exact ⟨i, path, m, f, hfile, hid, .stored hstore⟩
    obtain ⟨i, path, m, f, hfile, hid, hshows⟩ := hshown
    exact ⟨_, (mem_history hmodest hms rfl).mpr ⟨i, path, m, hfile, hshows, hid⟩, rfl⟩

theorem mem_history_global (hmodest : pass.Modest) (hms : ms.Perm (List.range pass.program.length))
    {id : FuncId} {global : ByteString} :
    global ∈ (pass.history ms id).filterMap Fact.global? ↔ pass.IsPublished id global := by
  rw [List.mem_filterMap]
  constructor
  · rintro ⟨fact, hfact, hglobal⟩
    cases fact with
    | published f g =>
      cases hglobal
      obtain ⟨i, path, m, hfile, hshows, hid⟩ := (mem_history hmodest hms rfl).mp hfact
      cases hshows with
      | published hg => exact ⟨i, path, m, f, _, hfile, hid, hg, rfl⟩
    | _ => cases hglobal
  · rintro ⟨i, path, m, f, g, hfile, hid, hg, rfl⟩
    exact ⟨_, (mem_history hmodest hms rfl).mpr ⟨i, path, m, hfile, .published hg, hid⟩, rfl⟩

/-- A function has a history exactly if it occurs somewhere. -/
theorem history_ne_nil (hmodest : pass.Modest) (hms : ms.Perm (List.range pass.program.length))
    {id : FuncId} : pass.history ms id ≠ [] ↔ ∃ how, pass.Occurs id how := by
  constructor
  · intro hne
    cases hist : pass.history ms id with
    | nil => exact absurd hist hne
    | cons first rest =>
      obtain ⟨f, how, rfl⟩ := pass.head?_history ms id first (by rw [hist]; rfl)
      refine ⟨how, (mem_history_how hmodest hms).mp ?_⟩
      rw [hist]
      exact List.mem_filterMap.mpr ⟨_, List.mem_cons_self, rfl⟩
  · rintro ⟨how, hocc⟩ hnil
    have hmem := (mem_history_how hmodest hms).mpr hocc
    rw [hnil] at hmem
    cases hmem

/-! ### Records -/

theorem Occurs.func? {id : FuncId} {how : Escapes} (h : pass.Occurs id how) :
    ∃ f, pass.program.func? id = some f := by
  obtain ⟨i, path, m, k, c, -, hid, -, -⟩ := h
  obtain ⟨s, hs, rfl⟩ := Option.map_eq_some_iff.mp hid
  obtain ⟨f, hf, -⟩ := Option.map_eq_some_iff.mp (home?_symbol hs)
  exact ⟨f, hf⟩

theorem learned_describes (hmodest : pass.Modest)
    (hms : ms.Perm (List.range pass.program.length)) {id : FuncId} {f : Func}
    (hfunc : pass.program.func? id = some f) :
    pass.Describes ((pass.history ms id).foldl FuncInfo.learn (pass.blank id)) := by
  have hsame := FuncInfo.foldl_learn_sameFunc (pass.history ms id) (pass.blank id)
  have hblank : pass.blank id =
      .ofSymbol (.ofFunc id.module id.index f) (pass.program.path id.module) (.ofFunc f) := by
    rw [blank, hfunc]
  have hid : (pass.blank id).id = id := by rw [hblank]; rfl
  constructor
  · refine ⟨f, by rw [hsame.id, hid, hfunc], ?_, ?_, ?_⟩
    · rw [hsame.name, hblank]; rfl
    · rw [hsame.sig, hblank]; rfl
    · rw [hsame.isLocal, hblank]; rfl
  · obtain ⟨file, hfile, hcontent⟩ := Option.bind_eq_some_iff.mp hfunc
    obtain ⟨m, hm, -⟩ := Option.bind_eq_some_iff.mp hcontent
    have hpath : (pass.blank id).module = file.path := by
      rw [hblank, FuncInfo.ofSymbol, Program.path, hfile]
      rfl
    refine ⟨m, ?_⟩
    rw [hsame.id, hid, hsame.module, hpath, Holds, hfile, ← hm]
  · refine ⟨(pass.history ms id).filterMap Fact.how?, ?_, ?_⟩
    · intro how
      rw [hsame.id, hid]
      exact mem_history_how hmodest hms
    · rw [FuncInfo.foldl_learn_escapes, foldl_union_how, hblank]
      rfl
  · intro d
    rw [FuncInfo.mem_evidence_foldl_learn, (pass.blank_blank id).1, hsame.id, hid]
    simp only [List.not_mem_nil, false_or, mem_history_slot hmodest hms]
    constructor
    · rintro ⟨slot, ⟨owner, field, hin, rfl⟩, hd⟩
      exact ⟨owner, field, hin, hd⟩
    · rintro ⟨owner, field, hin, hd⟩
      exact ⟨_, ⟨owner, field, hin, rfl⟩, hd⟩
  · intro g
    have hnone : (pass.blank id).published = [] := by rw [hblank]; rfl
    rw [FuncInfo.mem_published_foldl_learn, hnone, hsame.id, hid, mem_history_global hmodest hms]
    simp
  · intro hinj o
    rw [FuncInfo.mem_owners_foldl_learn hinj (pass.history_slots ms id) (pass.blank_blank id).1
      (pass.blank_blank id).2, hsame.id, hid]
    simp only [mem_history_slot hmodest hms]
    constructor
    · rintro ⟨slot, ⟨owner, field, hin, rfl⟩, rfl⟩
      exact ⟨field, hin⟩
    · rintro ⟨field, hin⟩
      exact ⟨_, ⟨o, field, hin, rfl⟩, rfl⟩

theorem Resolved.info?_eq {config : Config} {c : Context} (h : pass.Resolved config ms c)
    (id : FuncId) : c.info? id = (pass.gathered config ms).info? id := by
  obtain ⟨sites, stats, rfl⟩ := h.frame
  rfl

/-- There is a record of a function exactly if it occurs. -/
theorem Resolved.recorded_iff {config : Config} {c : Context} (h : pass.Resolved config ms c)
    (hmodest : pass.Modest) (hms : ms.Perm (List.range pass.program.length)) {id : FuncId} :
    id ∈ c.addressTaken.map FuncInfo.id ↔ ∃ how, pass.Occurs id how := by
  rw [← history_ne_nil hmodest hms, List.mem_map]
  constructor
  · rintro ⟨fi, hfi, rfl⟩ hnil
    rw [h.indexed.mem_addressTaken, h.info?_eq, gathered_info?, if_pos hnil] at hfi
    cases hfi
  · intro hne
    have hinfo := h.info?_eq id
    rw [gathered_info?, if_neg hne] at hinfo
    have hid := h.indexed.funcs.key_eq id _ hinfo
    exact ⟨_, h.indexed.mem_addressTaken.mpr (by rw [hid]; exact hinfo), hid⟩

theorem Resolved.describes {config : Config} {c : Context} (h : pass.Resolved config ms c)
    (hmodest : pass.Modest) (hms : ms.Perm (List.range pass.program.length)) {fi : FuncInfo}
    (hfi : fi ∈ c.addressTaken) : pass.Describes fi := by
  obtain ⟨how, hocc⟩ := (h.recorded_iff hmodest hms).mp (List.mem_map_of_mem hfi)
  obtain ⟨f, hf⟩ := hocc.func?
  have hne := (history_ne_nil hmodest hms).mpr ⟨how, hocc⟩
  rw [h.indexed.mem_addressTaken, h.info?_eq, gathered_info?, if_neg hne, Option.some.injEq] at hfi
  rw [← hfi]
  exact learned_describes hmodest hms hf

end Pass

/-! ### Runs -/

theorem Program.pass_modest {p : Program} (h : ∀ file ∈ p, ∀ m ∈ file.content, m.Modest) :
    (Pass.ofProgram p).Modest := by
  intro i path m hfile
  exact h _ (List.mem_of_getElem? hfile) m rfl

namespace Registry

open Table in
/-- Keeps a function in a table, stores another into it and a third, inside an array, into a row of
slots. Both globals are exported. -/
def owner : Module := { Module.empty with
  typeDefs := defs
  globals := [
    ⟨.named "table", .unspecified, 0, .named "ops",
      some (.struct (.named "ops") [.cast .bit (.func 0) hook, .plain hook])⟩,
    ⟨.named "slots", .unspecified, 0, .array 1 hook, some (.plain (.array 1 hook))⟩]
  funcs := [func "open" .internalOnly [] [], func "close" .internalOnly [] [],
    func "hidden" .internalOnly [] [],
    func "setup" .unspecified [] [
      ⟨.store (.const (.func 1)) (.const (.gep (.named "ops") (.global 0)
        [.int (.int 32) 0, .int (.int 32) 1])), .void, []⟩,
      ⟨.store (.const (.array (.array 1 hook) [.func 2])) (.const (.global 1)), .void, []⟩]] }

open Table in
def user : Module := { Module.empty with
  funcs := [{ func "setup" .unspecified [hook] [] with blocks := [] },
    func "run" .unspecified [] [
      ⟨.call ⟨some (.const (.func 0)), some .void, [.const (.func 0)]⟩, .void, []⟩]] }

def program : Program := [⟨"user", some user⟩, ⟨"owner", some owner⟩]

def run : RunOutcome PassState NoSignature :=
  ((Pass.ofProgram program).capped 2).run [0, 1] ((Pass.ofProgram program).start .standard)

/-- The function inside the array is on record, but not published. -/
def expected : List (ByteString × String × Nat × List ByteString) :=
  [("setup", "argument", 0, []), ("open", "global", 1, ["table"]),
    ("close", "store", 1, ["table"]), ("hidden", "store", 0, [])]

end Registry

/-- After a run that succeeds, every function that was put into an exported global is on record. It
is published through the global exactly if it is inside the initial value, or was stored by itself:
a store of a larger constant does not publish the functions inside. -/
theorem published_unless_buried {p : Program} (hpaths : (p.map ModuleFile.path).Nodup)
    (hmodest : ∀ file ∈ p, ∀ m ∈ file.content, m.Modest) (config : Config) (cap : Int)
    {ms : List Nat} (hms : ms.Perm (List.range p.length)) :
    let pass := Pass.ofProgram p
    let out := (pass.capped cap).run ms (pass.start config)
    out.error = none → ∀ id global,
      (pass.IsDeposited id global → id ∈ out.state.context.addressTaken.map FuncInfo.id) ∧
      ((∃ fi ∈ out.state.context.addressTaken, fi.id = id ∧ global ∈ fi.published) ↔
        pass.IsPublished id global) := by
  intro pass out hok id global
  have hnodup : ms.Nodup := hms.nodup_iff.mpr List.nodup_range
  have hsigned := (Pass.run_error_iff hpaths hnodup config cap).mp hok
  obtain ⟨-, hres, -⟩ := Pass.run_of_signed hpaths hnodup hsigned config cap
  have hlimits := Program.pass_modest hmodest
  have hrecorded (h : pass.IsDeposited id global) :
      id ∈ out.state.context.addressTaken.map FuncInfo.id := by
    obtain ⟨i, path, m, f, g, hfile, hid, hg, -⟩ := h
    obtain ⟨c, how, hc, hf⟩ := hg.exposes
    exact (hres.recorded_iff hlimits hms).mpr ⟨how, i, path, m, f, c, hfile, hid, hc, hf⟩
  refine ⟨hrecorded, ?_, ?_⟩
  · rintro ⟨fi, hfi, rfl, hg⟩
    exact ((hres.describes hlimits hms hfi).published global).mp hg
  · intro hpub
    have hdep : pass.IsDeposited id global := by
      obtain ⟨i, path, m, f, g, hfile, hid, hg, hname⟩ := hpub
      exact ⟨i, path, m, f, g, hfile, hid, hg.deposits, hname⟩
    obtain ⟨fi, hfi, rfl⟩ := List.mem_map.mp (hrecorded hdep)
    exact ⟨fi, hfi, rfl, ((hres.describes hlimits hms hfi).published global).mpr hpub⟩

theorem published_unless_buried_registry :
    Registry.run.error = none ∧
      (Pass.ofProgram Registry.program).IsDeposited ⟨1, 2⟩ "slots" ∧
      ¬ (Pass.ofProgram Registry.program).IsPublished ⟨1, 2⟩ "slots" ∧
      (Pass.ofProgram Registry.program).IsPublished ⟨1, 1⟩ "table" := by
  have hpaths : (Registry.program.map ModuleFile.path).Nodup := by decide +kernel
  have hmodest : ∀ file ∈ Registry.program, ∀ m ∈ file.content, m.Modest := by decide +kernel
  have hms : [0, 1].Perm (List.range Registry.program.length) := by decide +kernel
  have hok : Registry.run.error = none := by decide +kernel
  have hhidden : ¬ ∃ fi ∈ Registry.run.state.context.addressTaken,
      fi.id = ⟨1, 2⟩ ∧ ("slots" : ByteString) ∈ fi.published := by decide +kernel
  have hclose : ∃ fi ∈ Registry.run.state.context.addressTaken,
      fi.id = ⟨1, 1⟩ ∧ ("table" : ByteString) ∈ fi.published := by decide +kernel
  have hexact := published_unless_buried hpaths hmodest .standard 2 hms
  unfold Registry.run at hok hhidden hclose ⊢
  refine ⟨hok, ?_, fun h => hhidden ((hexact hok _ _).2.mpr h), (hexact hok _ _).2.mp hclose⟩
  have hsetup : Registry.owner.funcs[3] ∈ Registry.owner.funcs := List.getElem_mem _
  have hstores : Registry.owner.funcs[3].Stores (.const (.array (.array 1 Table.hook) [.func 2]))
      (.const (.global 1)) :=
    ⟨_, List.mem_cons_self, _, List.mem_cons_of_mem _ List.mem_cons_self, rfl⟩
  exact ⟨1, "owner", Registry.owner, 2, _, rfl, rfl,
    .stored hsetup hstores (.self rfl) (by simp [Const.inside, Const.insideAll])
      (Nat.succ_pos _) (.global (.self rfl) rfl) rfl, rfl⟩

end CallTargets
