import CallTargets.Proofs.Discovery.SymbolNames
import CallTargets.Proofs.Matching.Changes
import CallTargets.Proofs.Matching.External

/-!
# Assigning the targets of a call

The targets of a call are kept in a list that is sorted by name and module, without neighbours
alike. Two such lists are compared element by element. The main statement is that this assigns
sets exactly if the records of a run are told apart by their names and modules, whatever was
assigned before and however the lists are ordered. In modules that were read from texts and have
paths of their own they are told apart, unless a function is named like a number.
-/
namespace CallTargets

open IR

/-! ### Sorted targets -/

namespace Target

theorem before_iff {t u : Target} : t.before u = true ↔
    t.name.before u.name = true ∨ t.name = u.name ∧ t.module.before u.module = true := by
  simp [before]

theorem before_precedes : Precedes before where
  asymm {t u} h := by
    by_contra hback
    rw [Bool.not_eq_false] at hback
    rw [before_iff] at h hback
    have hasymm := @ByteString.before_precedes.asymm
    rcases h with hname | ⟨hname, hmodule⟩
    · rcases hback with hback | ⟨hback, -⟩
      · simp [hasymm hname] at hback
      · simp [hback, ByteString.before_precedes.irrefl] at hname
    · rcases hback with hback | ⟨-, hback⟩
      · simp [hname, ByteString.before_precedes.irrefl] at hback
      · simp [hasymm hmodule] at hback
  trans {t u v} h h' := by
    rw [before_iff] at h h' ⊢
    rcases h with hname | ⟨hname, hmodule⟩
    · left
      rcases h' with hname' | ⟨hname', -⟩
      · exact ByteString.before_precedes.trans hname hname'
      · rwa [← hname']
    · rw [hname]
      exact h'.imp_right fun h' => ⟨h'.1, ByteString.before_precedes.trans hmodule h'.2⟩

/-- Only a name in common with a module in common leaves two targets without an order. -/
theorem alike_of_not_before {t u : Target} (h : t.before u = false) (h' : u.before t = false) :
    t.name = u.name ∧ t.module = u.module := by
  simp only [← Bool.not_eq_true, before_iff, not_or, not_and] at h h'
  have hname : t.name = u.name :=
    ByteString.eq_of_not_before (by simpa using h.1) (by simpa using h'.1)
  refine ⟨hname, ByteString.eq_of_not_before ?_ ?_⟩
  · simpa using h.2 hname
  · simpa using h'.2 hname.symm

theorem not_before_of_alike {t u : Target} (hname : t.name = u.name)
    (hmodule : t.module = u.module) : t.before u = false := by
  rw [before, hname, hmodule]
  simp [ByteString.before_precedes.irrefl]

@[simp] theorem mem_normalize {t : Target} {ts : List Target} : t ∈ normalize ts ↔ t ∈ ts := by
  simp [normalize]

def Apart (ts : List Target) : Prop :=
  ∀ t ∈ ts, ∀ u ∈ ts, t.name = u.name → t.module = u.module → t = u

theorem normalize_increasing {ts : List Target} (h : Apart ts) :
    (normalize ts).Pairwise fun t u => t.before u = true := by
  apply Precedes.dropRepeats_increasing (before_precedes.sortBy_sorted ts)
  intro t ht u hu htu hut
  obtain ⟨hname, hmodule⟩ := alike_of_not_before htu hut
  exact h t (mem_sortBy.mp ht) u (mem_sortBy.mp hu) hname hmodule

theorem normalize_sorted (ts : List Target) :
    (normalize ts).Pairwise fun t u => u.before t = false :=
  (before_precedes.sortBy_sorted ts).sublist (dropRepeats_sublist _)

theorem apart_of_increasing {ts : List Target} (h : ts.Pairwise fun t u => t.before u = true) :
    Apart ts := by
  have hordered : ts.Pairwise fun t u => t.before u = true ∨ u.before t = true := h.imp .inl
  have : Std.Symm fun t u : Target => t.before u = true ∨ u.before t = true := ⟨fun _ _ => .symm⟩
  intro t ht u hu hname hmodule
  by_contra hne
  rcases hordered.forall ht hu hne with hbefore | hbefore
  · simp [not_before_of_alike hname hmodule] at hbefore
  · simp [not_before_of_alike hname.symm hmodule.symm] at hbefore

theorem normalize_eq_iff {ts us : List Target} (hts : Apart ts) (hus : Apart us) :
    normalize ts = normalize us ↔ ∀ t, t ∈ ts ↔ t ∈ us := by
  constructor
  · intro heq t
    rw [← mem_normalize, heq, mem_normalize]
  · intro hmem
    apply before_precedes.eq_of_increasing (normalize_increasing hts) (normalize_increasing hus)
    simpa using hmem

end Target

/-! ### One assignment after another -/

namespace CallSite

def assignAll (cs : CallSite) (lists : List (List FuncInfo)) : CallSite :=
  lists.foldl (fun cs fs => (cs.setCallees (fs.map FuncInfo.target)).2) cs

/-- Only the last list counts, and nothing but the targets changes. -/
theorem assignAll_eq {cs : CallSite} (h : cs.callees = []) (lists : List (List FuncInfo)) :
    cs.assignAll lists = { cs with
      callees := Target.normalize ((lists.getLast?.getD []).map FuncInfo.target) } := by
  induction lists using List.reverseRecOn with
  | nil =>
    change cs = { cs with callees := [] }
    rw [← h]
  | append_singleton lists fs ih =>
    rw [assignAll, List.foldl_concat]
    change ((cs.assignAll lists).setCallees _).2 = _
    rw [ih]
    simp [setCallees]

/-- What an assignment of the functions of a list answers and leaves behind of a call, if the
targets before were those of another list. -/
structure Assigned (cs : CallSite) (old new : List FuncInfo) (r : Bool × CallSite) : Prop where
  changed : r.1 = true ↔ {fi | fi ∈ new} ≠ {fi | fi ∈ old}
  increasing : r.2.callees.Pairwise fun t u => t.before u = true
  members : ∀ t, t ∈ r.2.callees ↔ ∃ fi ∈ new, fi.target = t
  others : r.2 = { cs with callees := r.2.callees }

end CallSite

/-! ### Functions told apart by name and module -/

namespace FuncInfo

variable {records fs gs : List FuncInfo}

def Identified (records : List FuncInfo) : Prop :=
  ∀ a ∈ records, ∀ b ∈ records, a.name = b.name → a.module = b.module → a = b

theorem Identified.apart (h : Identified records) (hfs : fs ⊆ records) :
    Target.Apart (fs.map target) := by
  intro t ht u hu hname hmodule
  simp only [List.mem_map] at ht hu
  obtain ⟨a, ha, rfl⟩ := ht
  obtain ⟨b, hb, rfl⟩ := hu
  rw [h a (hfs ha) b (hfs hb) hname hmodule]

theorem Identified.mem_targets_iff (h : Identified records) (hfs : fs ⊆ records)
    (hgs : gs ⊆ records) :
    (∀ t, t ∈ fs.map target ↔ t ∈ gs.map target) ↔ {fi | fi ∈ fs} = {fi | fi ∈ gs} := by
  have hmem {fs : List FuncInfo} (hfs : fs ⊆ records) {a : FuncInfo} (ha : a ∈ records) :
      a.target ∈ fs.map target ↔ a ∈ fs := by
    constructor
    · intro hmem
      obtain ⟨b, hb, htarget⟩ := List.mem_map.mp hmem
      rwa [← h b (hfs hb) a ha (congrArg Target.name htarget) (congrArg Target.module htarget)]
    · exact List.mem_map_of_mem
  constructor
  · intro htargets
    ext a
    constructor
    · intro ha
      exact (hmem hgs (hfs ha)).mp ((htargets _).mp (List.mem_map_of_mem ha))
    · intro ha
      exact (hmem hfs (hgs ha)).mp ((htargets _).mpr (List.mem_map_of_mem ha))
  · intro hset t
    simp only [Set.ext_iff, Set.mem_ofPred_eq] at hset
    simp [hset]

theorem Identified.assigned (h : Identified records) {cs : CallSite} (hcs : cs.callees = [])
    {earlier : List (List FuncInfo)} (hearlier : ∀ gs ∈ earlier, gs ⊆ records)
    (hfs : fs ⊆ records) :
    cs.Assigned (earlier.getLast?.getD []) fs
      ((cs.assignAll earlier).setCallees (fs.map target)) := by
  have hlast : earlier.getLast?.getD [] ⊆ records := by
    cases hlast : earlier.getLast? with
    | none => simp
    | some gs => exact hearlier gs (List.mem_of_getLast? hlast)
  rw [CallSite.assignAll_eq hcs]
  constructor
  · apply bne_iff_ne.trans
    apply not_congr
    apply (Target.normalize_eq_iff (h.apart hfs) (h.apart hlast)).trans
    exact h.mem_targets_iff hfs hlast
  · exact Target.normalize_increasing (h.apart hfs)
  · intro t
    exact Target.mem_normalize.trans List.mem_map
  · rfl

end FuncInfo

namespace Pass

variable {pass : Pass} {c : Context}

def Parsed (pass : Pass) : Prop :=
  ∀ i path m, pass.Holds i path m → ∃ text, Module.ofBytes? text = some m

/-- No function is named like a number. -/
def PlainNames (pass : Pass) : Prop :=
  ∀ i path m, pass.Holds i path m → ∀ f ∈ m.funcs, f.ident.isPlain = true

namespace Registered

theorem eq_of_id (h : pass.Registered c) {a b : FuncInfo} (ha : a ∈ c.addressTaken)
    (hb : b ∈ c.addressTaken) (hid : a.id = b.id) : a = b := by
  rw [h.indexed.mem_addressTaken] at ha hb
  rw [hid, hb] at ha
  exact (Option.some.inj ha).symm

/-- A record has the name of a function in the module whose path it has. -/
theorem held (h : pass.Registered c) {fi : FuncInfo} (hfi : fi ∈ c.addressTaken) :
    ∃ m, pass.Holds fi.id.module fi.module m ∧
      (m.funcs.map Func.name)[fi.id.index]? = some fi.name := by
  obtain ⟨_, _, s, hs, hid, hname, -⟩ := h.symbol hfi
  have hsymbol := home?_symbol hs
  rw [hid] at hsymbol
  obtain ⟨f, hf, rfl⟩ := Option.map_eq_some_iff.mp hsymbol
  simp only [Program.func?, Option.bind_eq_bind, Option.bind_eq_some_iff] at hf
  obtain ⟨⟨path, _⟩, hfile, m, rfl, hf⟩ := hf
  have hpath : fi.module = path := by simp [h.module_eq hfi, Program.path, hfile]
  refine ⟨m, hpath ▸ hfile, ?_⟩
  rw [List.getElem?_map, hf, ← hname]
  rfl

/-- Paths tell modules apart, and names tell the functions of a module apart. -/
theorem identified (h : pass.Registered c) (hpaths : pass.DistinctPaths)
    (hnames : ∀ i path m, pass.Holds i path m → (m.funcs.map Func.name).Nodup) :
    FuncInfo.Identified c.addressTaken := by
  intro a ha b hb hname hmodule
  obtain ⟨m, hm, hf⟩ := h.held ha
  obtain ⟨n, hn, hg⟩ := h.held hb
  rw [hmodule] at hm
  have hi : a.id.module = b.id.module := hm.module_eq hn hpaths
  rw [hi] at hm
  obtain ⟨-, rfl⟩ := hm.file_eq hn
  have hindex : a.id.index = b.id.index := by
    apply (List.getElem?_inj (List.getElem?_eq_some_iff.mp hf).1 (hnames _ _ _ hm)).mp
    rw [hf, hg, hname]
  apply h.eq_of_id ha hb
  calc
    a.id = ⟨a.id.module, a.id.index⟩ := rfl
    _ = b.id := by rw [hi, hindex]

end Registered
end Pass

/-- Whatever lists of recorded functions were assigned to a call before, the next one leaves its
members, none of them in front of one that comes before it. It is reported as a change exactly if
it has other members, and leaves them in ascending order of name and module, exactly if name and
module identify the records of the run. They do, if the modules were read from texts, have
different paths, and name no function like a number. -/
theorem setCallees_assigns_set {pass : Pass} (hpaths : pass.DistinctPaths) {config : Config}
    {s : PassState} (hs : pass.Reachable config s) :
    (∀ (cs : CallSite) (earlier : List (List FuncInfo)) (fs : List FuncInfo), cs.callees = [] →
      let r := (cs.assignAll earlier).setCallees (fs.map FuncInfo.target)
      (∀ t, t ∈ r.2.callees ↔ ∃ fi ∈ fs, fi.target = t) ∧
        r.2.callees.Pairwise (fun t u => u.before t = false)) ∧
    (FuncInfo.Identified s.context.addressTaken ↔
      ∀ (cs : CallSite) (earlier : List (List FuncInfo)) (fs : List FuncInfo), cs.callees = [] →
        (∀ gs ∈ earlier, gs ⊆ s.context.addressTaken) → fs ⊆ s.context.addressTaken →
        cs.Assigned (earlier.getLast?.getD []) fs
          ((cs.assignAll earlier).setCallees (fs.map FuncInfo.target))) ∧
    (pass.Parsed → pass.PlainNames → FuncInfo.Identified s.context.addressTaken) := by
  have hregistered := hs.ordered.toRegistered
  refine ⟨fun cs earlier fs _ => ⟨?_, Target.normalize_sorted _⟩,
    ⟨fun hidentified cs earlier fs hcs hearlier hfs => hidentified.assigned hcs hearlier hfs,
      fun hassigned a ha b hb hname hmodule => ?_⟩, fun hparsed hplain => ?_⟩
  · intro t
    exact Target.mem_normalize.trans List.mem_map
  · -- Two functions without an order cannot both be in an increasing list.
    have hpair := hassigned default [] [a, b] rfl (by simp) (by simp [ha, hb])
    have htarget : a.target = b.target :=
      Target.apart_of_increasing hpair.increasing a.target ((hpair.members _).mpr ⟨a, by simp⟩)
        b.target ((hpair.members _).mpr ⟨b, by simp⟩) hname hmodule
    exact hregistered.eq_of_id ha hb (congrArg Target.id htarget)
  · apply hregistered.identified hpaths
    intro i path m hm
    obtain ⟨text, htext⟩ := hparsed i path m hm
    exact Module.names_nodup htext (hplain i path m hm)

/-! ### Modules that are read from texts -/

namespace Twins

def pass (text : ByteString) (paths : List ByteString) : Pass :=
  .ofProgram (paths.map fun path => ⟨path, Module.ofBytes? text⟩)

theorem ofBytes?_of_holds {text : ByteString} {paths : List ByteString} {i : Nat}
    {path : ByteString} {m : Module} (h : (pass text paths).Holds i path m) :
    Module.ofBytes? text = some m := by
  have hfile : (paths.map fun path => ModuleFile.mk path (Module.ofBytes? text))[i]? =
    some ⟨path, some m⟩ := h
  rw [List.getElem?_map] at hfile
  obtain ⟨_, -, hfile⟩ := Option.map_eq_some_iff.mp hfile
  exact congrArg ModuleFile.content hfile

theorem parsed (text : ByteString) (paths : List ByteString) : (pass text paths).Parsed :=
  fun _ _ _ h => ⟨text, ofBytes?_of_holds h⟩

theorem plainNames {text : ByteString} (h : (Module.ofBytes? text).all fun m =>
    m.funcs.all fun f => f.ident.isPlain) (paths : List ByteString) :
    (pass text paths).PlainNames := by
  intro i path m hm
  rw [ofBytes?_of_holds hm] at h
  simpa using h

def ready (pass : Pass) : PassState := (pass.prepare 1 (pass.prepare 0 (pass.start .standard)).2).2

theorem reachable (pass : Pass) : pass.Reachable .standard (ready pass) :=
  (Pass.Reachable.start.prepare 0).prepare 1

def records (pass : Pass) : List FuncInfo := (ready pass).context.addressTaken

/-- A local function whose address is kept. -/
def kept : ByteString :=
  "@hook = global void ()* @init\ndefine internal void @init() \x7b\n  ret void\n\x7d\n"

def plain : Pass := pass kept ["left", "right"]

/-- Two functions that are known by one name. -/
def numbers : ByteString := .ofText <|
  "@a = global void ()* @\"7\"\n@b = global void ()* @\"007\"\n" ++
    "define void @\"7\"() \x7b\n  ret void\n\x7d\ndefine void @\"007\"() \x7b\n  ret void\n\x7d\n"

def numbered : Pass := pass numbers ["m"]

theorem targets_numbered : (records numbered).map FuncInfo.target =
    [⟨⟨0, 0⟩, "\"7\"", "m"⟩, ⟨⟨0, 1⟩, "\"7\"", "m"⟩] := by
  decide +kernel

end Twins

open Twins in
/-- Local functions of one name in two modules are told apart. Functions of one module that are
named by one number are not: turning two of them around is reported as a change, and a repeated one
is kept twice. -/
theorem setCallees_assigns_set_twins :
    (plain.DistinctPaths ∧ plain.Parsed ∧ plain.PlainNames ∧
      (records plain).map FuncInfo.name = ["init", "init"] ∧
      ∀ cs : CallSite, cs.callees = [] →
        let r := (cs.assignAll [[], (records plain).reverse]).setCallees
          ((records plain ++ records plain).map FuncInfo.target)
        r.1 = false ∧ r.2.callees.Pairwise (fun t u => t.before u = true)) ∧
    (numbered.DistinctPaths ∧ numbered.Parsed ∧
      (records numbered).map FuncInfo.name = ["\"7\"", "\"7\""] ∧
      ¬ FuncInfo.Identified (records numbered) ∧
      (((default : CallSite).assignAll [records numbered]).setCallees
        ((records numbered).reverse.map FuncInfo.target)).1 = true ∧
      ¬ ((default : CallSite).setCallees
        ((records numbered ++ records numbered).map FuncInfo.target)).2.callees.Nodup) := by
  constructor
  · have hpaths : plain.DistinctPaths := by decide +kernel
    have hparsed : plain.Parsed := parsed _ _
    have hplain : plain.PlainNames := plainNames (by decide +kernel) _
    refine ⟨hpaths, hparsed, hplain, by decide +kernel, fun cs hcs => ?_⟩
    obtain ⟨-, hiff, hidentified⟩ := setCallees_assigns_set hpaths (reachable plain)
    have hassigned := hiff.mp (hidentified hparsed hplain) cs [[], (records plain).reverse]
      (records plain ++ records plain) hcs (by simp [records]) (by simp [records])
    refine ⟨?_, hassigned.increasing⟩
    rw [← Bool.not_eq_true, hassigned.changed, not_not]
    ext fi
    simp
  · have hpaths : numbered.DistinctPaths := by decide +kernel
    have hnames : (records numbered).map FuncInfo.name =
        ((records numbered).map FuncInfo.target).map Target.name := by
      rw [List.map_map]
      rfl
    have hturned : (((default : CallSite).assignAll [records numbered]).setCallees
        ((records numbered).reverse.map FuncInfo.target)).1 = true := by
      rw [CallSite.assignAll_eq rfl, List.map_reverse]
      simp only [List.getLast?_singleton, Option.getD_some, targets_numbered]
      decide +kernel
    have hkept : ¬ ((default : CallSite).setCallees
        ((records numbered ++ records numbered).map FuncInfo.target)).2.callees.Nodup := by
      rw [List.map_append, targets_numbered]
      decide +kernel
    rw [hnames, targets_numbered]
    refine ⟨hpaths, parsed _ _, rfl, fun hidentified => ?_, hturned, hkept⟩
    obtain ⟨-, hiff, -⟩ := setCallees_assigns_set hpaths (reachable numbered)
    have hassigned := hiff.mp hidentified default [records numbered] (records numbered).reverse rfl
      (by simp [records]) (by simp [records])
    apply hassigned.changed.mp hturned
    ext fi
    simp

end CallTargets
