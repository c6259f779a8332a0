import CallTargets.Proofs.Signature.Respacing

/-!
# Names for shapes

The table of a program lists, under the key of each shape, the names of the structs of that shape
in the order of the modules and of the definitions in them. A key is a text of decimal numbers, and
it determines the kinds it is written for. So a struct written in place borrows the name of the
first struct in the program whose members are of the same kinds. If there is none it is described by
its structure, which keeps all but its blanks exactly if no class parameter shows in it.

The statistics count the shapes of the structs that are written in place and can be reached from the
definitions, globals and signatures of a module.
-/
namespace CallTargets

open IR Text

/-! ### Keys of shapes -/

namespace Kind

def key (ks : List Kind) : String :=
  String.join (ks.map fun k => toString k.number ++ ",")

theorem toList_key_cons (k : Kind) (ks : List Kind) :
    (key (k :: ks)).toList = digits k.number ++ ',' :: (key ks).toList := by
  simp [key, String.toList_join, digits, Nat.toString_eq_repr]

theorem digits_injective {k l : Kind} (h : digits k.number = digits l.number) : k = l := by
  apply number_injective
  calc k.number = Nat.ofDigitChars 10 (digits k.number) 0 := Nat.ofDigitChars_ten_toDigits.symm
    _ = Nat.ofDigitChars 10 (digits l.number) 0 := by rw [h]
    _ = l.number := Nat.ofDigitChars_ten_toDigits

/-- A comma ends a number, so a key can be read from the left. -/
theorem key_injective : Function.Injective key := by
  intro ks ls h
  induction ks generalizing ls with
  | nil =>
    cases ls with
    | nil => rfl
    | cons l ls =>
      have hchars := congrArg String.toList h
      rw [toList_key_cons] at hchars
      simp [key] at hchars
  | cons k ks ih =>
    cases ls with
    | nil =>
      have hchars := congrArg String.toList h
      rw [toList_key_cons] at hchars
      simp [key] at hchars
    | cons l ls =>
      have hchars := congrArg String.toList h
      rw [toList_key_cons, toList_key_cons] at hchars
      have hword (n : Nat) : ∀ c ∈ digits n, isWordChar c = true :=
        fun c hc => isWordChar_of_isDigit (isDigit_of_mem_digits hc)
      obtain ⟨hdigits, hrest⟩ := word_append_inj (hword k.number) (hword l.number)
        (by rintro c ⟨⟩; decide) (by rintro c ⟨⟩; decide) hchars
      rw [digits_injective hdigits, ih (String.toList_inj.mp (List.cons.inj hrest).2)]

end Kind

theorem IR.TypeDefs.shape_eq_key (defs : TypeDefs) (fields : List Ty) :
    defs.shape fields = Kind.key (fields.map defs.kind) := by
  rw [shape, Kind.key, List.map_map]
  rfl

/-! ### Names of a shape -/

/-- The named structs of a module that have a body, with the kinds of their members. -/
def IR.Module.namedBodies (m : Module) : List (ByteString × List Kind) :=
  m.typeDefs.filterMap fun d =>
    match d.2 with
    | .struct _ _ fields => some (d.1, fields.map m.typeDefs.kind)
    | _ => none

namespace Program

def namedBodies (p : Program) : List (ByteString × List Kind) :=
  p.contents.flatMap Module.namedBodies

def nameFor? (p : Program) (ks : List Kind) : Option ByteString :=
  (p.namedBodies.find? fun b => b.2 == ks).map Prod.fst

abbrev structNames (p : Program) : StructNames := .ofModules p.contents

end Program

namespace StructNames

theorem registerModule_eq (names : Assoc String (List ByteString)) (m : Module) :
    registerModule names m =
      m.namedBodies.foldl (fun names b => register names (Kind.key b.2) b.1) names := by
  rw [Module.namedBodies, List.foldl_filterMap, registerModule]
  congr 1
  funext names ⟨name, t⟩
  cases t <;> first | rfl | simp only [TypeDefs.shape_eq_key]

theorem ofModules_names (p : Program) : p.structNames.names =
    p.namedBodies.foldl (fun names b => register names (Kind.key b.2) b.1) [] := by
  rw [Program.namedBodies, List.foldl_flatMap]
  simp only [Program.structNames, ofModules, ← registerModule_eq]

theorem getD_register (names : Assoc String (List ByteString)) (shape : String) (name : ByteString)
    (k : String) : ((register names shape name).get? k).getD [] =
      if shape = k ∧ name ∉ (names.get? k).getD [] then (names.get? k).getD [] ++ [name]
      else (names.get? k).getD [] := by
  rw [register, Assoc.get?_alter]
  by_cases hk : shape = k
  · subst hk
    by_cases hmem : name ∈ (names.get? shape).getD [] <;> simp [hmem]
  · simp [hk]

/-- Registering bodies lists the names under each key, each name once. -/
theorem getD_foldl_register (bodies : List (ByteString × List Kind)) (k : String) :
    ((bodies.foldl (fun names b => register names (Kind.key b.2) b.1) []).get? k).getD [] =
      ((bodies.filter fun b => Kind.key b.2 == k).map Prod.fst).eraseDups := by
  induction bodies using List.reverseRecOn with
  | nil => rfl
  | append_singleton bodies b ih =>
    rw [List.foldl_append, List.foldl_cons, List.foldl_nil, getD_register, ih, List.filter_append,
      List.map_append]
    by_cases hk : Kind.key b.2 = k
    · subst hk
      generalize (bodies.filter _).map Prod.fst = known
      by_cases hmem : b.1 ∈ known <;> simp [hmem, eraseDups_concat]
    · simp [hk]

theorem namesOf_eq (p : Program) (k : String) : p.structNames.namesOf k =
    ((p.namedBodies.filter fun b => Kind.key b.2 == k).map Prod.fst).eraseDups := by
  rw [namesOf, ofModules_names, getD_foldl_register]

theorem mem_namesOf {p : Program} {k : String} {name : ByteString} :
    name ∈ p.structNames.namesOf k ↔ ∃ m ∈ p.contents, ∃ id packed fields,
      (name, Ty.struct id packed fields) ∈ m.typeDefs ∧ m.typeDefs.shape fields = k := by
  simp only [namesOf_eq, List.mem_eraseDups, List.mem_map, List.mem_filter, beq_iff_eq,
    Program.namedBodies, List.mem_flatMap, Module.namedBodies, List.mem_filterMap]
  constructor
  · rintro ⟨b, ⟨⟨m, hm, ⟨n, t⟩, ht, hb⟩, hk⟩, rfl⟩
    cases t with
    | struct id packed fields =>
      cases hb
      exact ⟨m, hm, id, packed, fields, ht, (m.typeDefs.shape_eq_key fields).trans hk⟩
    | _ => cases hb
  · rintro ⟨m, hm, id, packed, fields, ht, rfl⟩
    exact ⟨_, ⟨⟨m, hm, _, ht, rfl⟩, (m.typeDefs.shape_eq_key fields).symm⟩, rfl⟩

theorem lookup_key (p : Program) (ks : List Kind) :
    p.structNames.lookup (Kind.key ks) = p.nameFor? ks := by
  have hkeys : (fun b : ByteString × List Kind => Kind.key b.2 == Kind.key ks) =
      fun b => b.2 == ks := by
    funext b
    rw [Bool.eq_iff_iff, beq_iff_eq, beq_iff_eq, Kind.key_injective.eq_iff]
  rw [lookup, namesOf_eq, hkeys, Program.nameFor?, ← List.head?_filter]
  cases p.namedBodies.filter fun b => b.2 == ks with
  | nil => rfl
  | cons b bodies => rw [List.map_cons, List.eraseDups_cons]; rfl

end StructNames

/-! ### Descriptions -/

def IR.Ty.blankFree (t : Ty) : ByteString :=
  String.ofList (dropBlanks t.definition.toList)

section

variable (p : Program) (defs : TypeDefs) (id : Nat) (packed : Bool) (fields : List Ty)

/-- A struct written in place has the name of the first struct with members of the same kinds. -/
theorem describe_of_named {name : ByteString}
    (h : p.nameFor? (fields.map defs.kind) = some name) :
    describe (some p.structNames) defs (.struct (.literal id) packed fields) =
      ("%" : ByteString) ++ name := by
  have hlookup : p.structNames.lookup (defs.shape fields) = some name := by
    rw [TypeDefs.shape_eq_key, StructNames.lookup_key, h]
  simp only [describe, TypeDefs.expand, Option.bind_some, hlookup]

theorem describe_of_unnamed (h : p.nameFor? (fields.map defs.kind) = none) :
    describe (some p.structNames) defs (.struct (.literal id) packed fields) =
      Signature.clean (Ty.definition (.struct (.literal id) packed fields)) := by
  have hlookup : p.structNames.lookup (defs.shape fields) = none := by
    rw [TypeDefs.shape_eq_key, StructNames.lookup_key, h]
  simp only [describe, TypeDefs.expand, Option.bind_some, hlookup]

theorem clean_eq_blankFree_iff :
    (Signature.clean (Ty.definition (.struct (.literal id) packed fields)) : ByteString) =
        Ty.blankFree (.struct (.literal id) packed fields) ↔
      Ty.showsThis (.struct (.literal id) packed fields) = false := by
  rw [Ty.blankFree, ByteString.ofText_injective.eq_iff, Signature.clean_eq_iff,
    ← Ty.thisIn_chars.all (.struct (.literal id) packed fields) []]
  rfl

end

/-! ### Shapes written in place -/

def IR.Module.kindsInPlace (m : Module) : List (List Kind) :=
  (Ty.structsOf (StructNames.declaredTypes m)).filterMap fun st =>
    match st.id with
    | .literal _ => some (st.fields.map m.typeDefs.kind)
    | .named _ => none

/-- A struct written in place, with members of given kinds, can be reached from the definitions, the
globals and the signatures of a module. -/
def IR.Module.ReachesInPlace (m : Module) (ks : List Kind) : Prop :=
  ∃ t ∈ StructNames.declaredTypes m, ∃ st, m.typeDefs.Reaches t st ∧ (∃ n, st.id = .literal n) ∧
    st.fields.map m.typeDefs.kind = ks

def Program.kindsInPlace (p : Program) : List (List Kind) :=
  (p.contents.flatMap Module.kindsInPlace).eraseDups

namespace StructNames

/-- The structs written in the declared types are those in their reach. -/
theorem mem_structsOf_declaredTypes {m : Module} {st : StructTy} :
    st ∈ Ty.structsOf (declaredTypes m) ↔ ∃ t ∈ declaredTypes m, m.typeDefs.Reaches t st := by
  refine (TypeDefs.reaches_iff_mem_structsOf fun d hd => ?_).symm
  exact List.mem_append_left _ (List.mem_append_left _ (List.mem_map_of_mem hd))

theorem mem_kindsInPlace {m : Module} {ks : List Kind} :
    ks ∈ m.kindsInPlace ↔ m.ReachesInPlace ks := by
  rw [Module.kindsInPlace, List.mem_filterMap]
  constructor
  · rintro ⟨st, hst, hks⟩
    obtain ⟨t, ht, hreach⟩ := mem_structsOf_declaredTypes.mp hst
    cases hid : st.id with
    | named n => simp [hid] at hks
    | literal n => exact ⟨t, ht, st, hreach, ⟨n, hid⟩, by simpa [hid] using hks⟩
  · rintro ⟨t, ht, st, hreach, ⟨n, hid⟩, hks⟩
    exact ⟨st, mem_structsOf_declaredTypes.mpr ⟨t, ht, hreach⟩, by simp [hid, hks]⟩

theorem mem_program_kindsInPlace {p : Program} {ks : List Kind} :
    ks ∈ p.kindsInPlace ↔ ∃ m ∈ p.contents, m.ReachesInPlace ks := by
  rw [Program.kindsInPlace, List.mem_eraseDups, List.mem_flatMap]
  simp only [mem_kindsInPlace]

theorem mem_writtenShapes {m : Module} {s : String} :
    s ∈ writtenShapes m ↔ ∃ ks, m.ReachesInPlace ks ∧ Kind.key ks = s := by
  simp only [writtenShapes, List.mem_filterMap, TypeGraph.mem_structs_walk]
  constructor
  · rintro ⟨st, ⟨t, ht, hreach⟩, hs⟩
    cases hid : st.id with
    | named n => simp [hid] at hs
    | literal n =>
      have hshape : m.typeDefs.shape st.fields = s := by simpa [hid] using hs
      exact ⟨_, ⟨t, ht, st, hreach, ⟨n, hid⟩, rfl⟩, (m.typeDefs.shape_eq_key _).symm.trans hshape⟩
  · rintro ⟨_, ⟨t, ht, st, hreach, ⟨n, hid⟩, rfl⟩, rfl⟩
    exact ⟨st, ⟨t, ht, hreach⟩, by simp [hid, TypeDefs.shape_eq_key]⟩

end StructNames

theorem Assoc.put_of_not_mem {κ α : Type} [DecidableEq κ] {k : κ} {m : Assoc κ α}
    (h : k ∉ m.keys) (a : α) : m.put k a = m ++ [(k, a)] := by
  induction m with
  | nil => rfl
  | cons e m ih =>
    simp only [keys, List.map_cons, List.mem_cons, not_or] at h
    have hrest := ih h.2
    rw [put] at hrest ⊢
    rw [alter, if_neg (Ne.symm h.1), hrest, List.cons_append]

theorem Assoc.get?_map_self {κ α : Type} [DecidableEq κ] (f : κ → α) {ks : List κ} {k : κ}
    (h : k ∈ ks) : Assoc.get? k (ks.map fun k => (k, f k)) = some (f k) := by
  induction ks with
  | nil => cases h
  | cons j ks ih =>
    by_cases hj : j = k
    · simp [get?, hj]
    · simpa [get?, hj] using ih (List.mem_of_ne_of_mem (Ne.symm hj) h)

/-- Keys whose values depend on nothing else are listed once each. -/
theorem Assoc.foldl_put_eq {κ α : Type} [DecidableEq κ] (f : κ → α) (ks : List κ) :
    ks.foldl (fun (m : Assoc κ α) k => m.put k (f k)) [] =
      ks.eraseDups.map fun k => (k, f k) := by
  induction ks using List.reverseRecOn with
  | nil => rfl
  | append_singleton ks k ih =>
    rw [List.foldl_append, List.foldl_cons, List.foldl_nil, ih, eraseDups_concat]
    by_cases hk : k ∈ ks
    · rw [if_pos hk, put_of_get? (get?_map_self f (List.mem_eraseDups.mpr hk))]
    · rw [if_neg hk, put_of_not_mem (by simpa [keys] using hk), List.map_append, List.map_singleton]

namespace StructNames

theorem written_perm (p : Program) : p.structNames.written.Perm
    (p.kindsInPlace.map fun ks => (Kind.key ks, (p.nameFor? ks).isSome)) := by
  have hnamed (ks : List Kind) :
      (!(p.structNames.namesOf (Kind.key ks)).isEmpty) = (p.nameFor? ks).isSome := by
    rw [← lookup_key, lookup]
    cases p.structNames.namesOf (Kind.key ks) <;> rfl
  have hshapes : (p.contents.flatMap writtenShapes).eraseDups.Perm
      (p.kindsInPlace.map Kind.key) := by
    have hnodup : p.kindsInPlace.Nodup := nodup_eraseDups _
    apply (List.perm_ext_iff_of_nodup (nodup_eraseDups _) (hnodup.map Kind.key_injective)).mpr
    intro s
    simp only [List.mem_eraseDups, List.mem_flatMap, mem_writtenShapes, List.mem_map,
      mem_program_kindsInPlace]
    constructor
    · rintro ⟨m, hm, ks, hks, rfl⟩
      exact ⟨ks, ⟨m, hm, hks⟩, rfl⟩
    · rintro ⟨ks, ⟨m, hm, hks⟩, rfl⟩
      exact ⟨m, hm, ks, hks, rfl⟩
  change (List.foldl (fun w s => Assoc.put s (!(p.structNames.namesOf s).isEmpty) w) []
    (p.contents.flatMap writtenShapes)).Perm _
  rw [Assoc.foldl_put_eq fun s => !(p.structNames.namesOf s).isEmpty]
  have hperm := hshapes.map fun s => (s, !(p.structNames.namesOf s).isEmpty)
  simpa only [List.map_map, Function.comp_def, hnamed] using hperm

theorem stats_resolved (p : Program) : p.structNames.stats.resolved =
    (p.kindsInPlace.filter fun ks => (p.nameFor? ks).isSome).length := by
  change (p.structNames.written.filter Prod.snd).length = _
  rw [((written_perm p).filter _).length_eq, List.filter_map, List.length_map]
  rfl

theorem stats_unresolvable (p : Program) : p.structNames.stats.unresolvable =
    (p.kindsInPlace.filter fun ks => (p.nameFor? ks).isNone).length := by
  have hnone : (fun ks => (p.nameFor? ks).isNone) = fun ks => !(p.nameFor? ks).isSome := by
    funext ks
    cases p.nameFor? ks <;> rfl
  change (p.structNames.written.filter fun e => !e.2).length = _
  rw [((written_perm p).filter _).length_eq, List.filter_map, List.length_map, hnone]
  rfl

end StructNames

/-! ### Recovered names -/

/-- Under a key the table lists the names of all structs with a body whose members are of the kinds
that the key stands for, each name once and in order. A key stands for one sequence of kinds. So a
struct written in place has the name of the first struct with members of the same kinds. If there is
none it is described by its structure without blanks, exactly if no class parameter shows in it. The
statistics count each shape in reach once, by whether it has a name. -/
theorem structNames_first_of_shape (p : Program) :
    (∀ k, p.structNames.namesOf k =
        ((p.namedBodies.filter fun b => Kind.key b.2 == k).map Prod.fst).eraseDups ∧
      (p.structNames.namesOf k).Nodup ∧
      ∀ name, name ∈ p.structNames.namesOf k ↔ ∃ m ∈ p.contents, ∃ id packed fields,
        (name, Ty.struct id packed fields) ∈ m.typeDefs ∧ m.typeDefs.shape fields = k) ∧
    (∀ (defs defs' : TypeDefs) (fields fields' : List Ty), defs.shape fields = defs'.shape fields' ↔
      fields.map defs.kind = fields'.map defs'.kind) ∧
    (∀ (defs : TypeDefs) (id : Nat) (packed : Bool) (fields : List Ty),
      let t := Ty.struct (.literal id) packed fields
      (∀ name, p.nameFor? (fields.map defs.kind) = some name →
        describe (some p.structNames) defs t = ("%" : ByteString) ++ name) ∧
      (p.nameFor? (fields.map defs.kind) = none →
        describe (some p.structNames) defs t = Signature.clean t.definition ∧
        (describe (some p.structNames) defs t = t.blankFree ↔ t.showsThis = false))) ∧
    p.kindsInPlace.Nodup ∧
    (∀ ks, ks ∈ p.kindsInPlace ↔ ∃ m ∈ p.contents, m.ReachesInPlace ks) ∧
    p.structNames.stats.resolved =
      (p.kindsInPlace.filter fun ks => (p.nameFor? ks).isSome).length ∧
    p.structNames.stats.unresolvable =
      (p.kindsInPlace.filter fun ks => (p.nameFor? ks).isNone).length := by
  refine ⟨fun k => ⟨StructNames.namesOf_eq p k, ?_, fun name => StructNames.mem_namesOf⟩, ?_, ?_,
    nodup_eraseDups _, fun ks => StructNames.mem_program_kindsInPlace,
    StructNames.stats_resolved p, StructNames.stats_unresolvable p⟩
  · rw [StructNames.namesOf_eq]
    exact nodup_eraseDups _
  · intro defs defs' fields fields'
    rw [TypeDefs.shape_eq_key, TypeDefs.shape_eq_key, Kind.key_injective.eq_iff]
  · intro defs id packed fields
    refine ⟨fun name h => describe_of_named p defs id packed fields h, fun h => ?_⟩
    have hdescribe := describe_of_unnamed p defs id packed fields h
    exact ⟨hdescribe, by rw [hdescribe]; exact clean_eq_blankFree_iff id packed fields⟩

namespace Recovered

def couple : Ty := .struct (.literal 0) false [.int 16, .ptr 0 (.int 8)]

def call : Ty := .ptr 0 (.func .void [.ptr 0 (.named "class.A")] false)

def method : Ty := .struct (.literal 1) false [call]

/-- Names a shape twice, in two modules, and writes two structs in place. -/
def program : Program := [
  ⟨"first", some { Module.empty with
    typeDefs := [("gap", .incomplete "gap"),
      ("pair", .struct (.named "pair") false [.int 32, .ptr 0 (.named "gap")])] }⟩,
  ⟨"missing", none⟩,
  ⟨"second", some { Module.empty with
    typeDefs := [("class.A", .struct (.named "class.A") false [couple]),
      ("entry", .struct (.named "entry") true [.int 64, .ptr 0 (.int 8)])]
    globals := [⟨.named "kept", .unspecified, 0, .array 2 method, none⟩] }⟩]

end Recovered

open Recovered in
theorem structNames_first_of_shape_pair :
    program.structNames.namesOf "13,15," = ["pair", "entry"] ∧
      describe (some program.structNames) [] couple = "%pair" ∧
      program.nameFor? [.pointer] = none ∧
      describe (some program.structNames) [] method ≠ method.blankFree ∧
      program.kindsInPlace = [[.integer, .pointer], [.pointer]] ∧
      program.structNames.stats.resolved = 1 ∧ program.structNames.stats.unresolvable = 1 := by
  obtain ⟨hnames, -, hdescribe, -, -, hresolved, hunresolvable⟩ :=
    structNames_first_of_shape program
  have hkinds : program.kindsInPlace = [[.integer, .pointer], [.pointer]] := by decide +kernel
  have hnone : program.nameFor? [.pointer] = none := by decide +kernel
  refine ⟨(hnames _).1.trans (by decide +kernel), ?_, hnone, ?_, hkinds, ?_, ?_⟩
  · exact (hdescribe [] 0 false _).1 "pair" (by decide +kernel)
  · have hmethod := ((hdescribe [] 1 false [call]).2 hnone).2
    exact hmethod.not.mpr (by decide +kernel)
  · rw [hresolved, hkinds]
    decide +kernel
  · rw [hunresolvable, hkinds]
    decide +kernel

end CallTargets
