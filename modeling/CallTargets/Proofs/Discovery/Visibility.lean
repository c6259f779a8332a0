import CallTargets.Analysis
import CallTargets.Proofs.Discovery.Gathering
import CallTargets.Proofs.Fixpoint.Invariants
import CallTargets.Proofs.Layout.Owners
import CallTargets.Proofs.Sorting

/-!
# The types a module sees

The struct types of a module are those that can be reached from the types it mentions: from a type
to the types it is made of, and from a name to its definition. Names may lead back to where they
are used, so the types form a graph with cycles; the walk through it ends, and finds each struct
once.

All modules share one set of marks. A mark is the hash of the path of the module, a zero byte and
the eight bytes of the signature, and these bytes determine both. So a type is marked visible in a
module exactly if the module reaches a struct with its signature, as long as the hash tells apart
the byte strings at hand.
-/
namespace CallTargets

open IR Relation

/-! ### Types in reach -/

namespace IR

def Module.Executes (m : Module) (op : Op) : Prop :=
  ∃ f ∈ m.funcs, ∃ b ∈ f.blocks, ∃ i ∈ b.insts, i.op = op

/-- The types a module mentions: its definitions, the contents of its globals, the signatures of
its functions, and the memory that it sets aside, computes addresses in or reads. -/
inductive Module.Mentions (m : Module) : Ty → Prop
  | definition {n : ByteString} {t : Ty} (h : (n, t) ∈ m.typeDefs) : Mentions m t
  | global {g : Global} (h : g ∈ m.globals) : Mentions m g.content
  | signature {f : Func} (h : f ∈ m.funcs) : Mentions m f.signature
  | alloca {t : Ty} {count : Option Value} (h : m.Executes (.alloca t count)) : Mentions m t
  | gep {t : Ty} {src : Value} {indices : List Value} (h : m.Executes (.gep t src indices)) :
      Mentions m t
  | load {t : Ty} {src : Value} (h : m.Executes (.load t src)) : Mentions m t

def Module.Reaches (m : Module) (st : StructTy) : Prop :=
  ∃ t, m.Mentions t ∧ m.typeDefs.Reaches t st

theorem Op.memoryType?_eq_some {op : Op} {t : Ty} :
    op.memoryType? = some t ↔ (∃ count, op = .alloca t count) ∨
      (∃ src indices, op = .gep t src indices) ∨ ∃ src, op = .load t src := by
  cases op <;> simp [memoryType?]

namespace Module

variable {m : Module} {t : Ty} {st : StructTy}

theorem mem_usedTypes : t ∈ m.usedTypes ↔ m.Mentions t := by
  simp only [usedTypes, List.mem_append, List.mem_map, List.mem_flatMap, List.mem_cons,
    List.mem_filterMap, Op.memoryType?_eq_some]
  constructor
  · rintro ((⟨d, hd, rfl⟩ | ⟨g, hg, rfl⟩) |
      ⟨f, hf, rfl | ⟨b, hb, i, hi, ⟨count, hop⟩ | ⟨src, indices, hop⟩ | ⟨src, hop⟩⟩⟩)
    · exact .definition hd
    · exact .global hg
    · exact .signature hf
    · exact .alloca ⟨f, hf, b, hb, i, hi, hop⟩
    · exact .gep ⟨f, hf, b, hb, i, hi, hop⟩
    · exact .load ⟨f, hf, b, hb, i, hi, hop⟩
  · intro h
    cases h with
    | definition hd => exact .inl (.inl ⟨_, hd, rfl⟩)
    | global hg => exact .inl (.inr ⟨_, hg, rfl⟩)
    | signature hf => exact .inr ⟨_, hf, .inl rfl⟩
    | alloca h =>
      obtain ⟨f, hf, b, hb, i, hi, hop⟩ := h
      exact .inr ⟨f, hf, .inr ⟨b, hb, i, hi, .inl ⟨_, hop⟩⟩⟩
    | gep h =>
      obtain ⟨f, hf, b, hb, i, hi, hop⟩ := h
      exact .inr ⟨f, hf, .inr ⟨b, hb, i, hi, .inr (.inl ⟨_, _, hop⟩)⟩⟩
    | load h =>
      obtain ⟨f, hf, b, hb, i, hi, hop⟩ := h
      exact .inr ⟨f, hf, .inr ⟨b, hb, i, hi, .inr (.inr ⟨_, hop⟩)⟩⟩

theorem mem_structTypes_iff_reaches : st ∈ m.structTypes ↔ m.Reaches st := by
  simp only [structTypes, typeGraph, TypeGraph.mem_structs_walk, mem_usedTypes, Reaches]

theorem nodup_structTypes (m : Module) : m.structTypes.Nodup :=
  TypeGraph.nodup_structs_walk _

end Module
end IR

/-! ### Marks -/

namespace Signature

@[simp] theorem length_wordBytes (w : UInt64) : (wordBytes w).length = 8 := by
  simp [wordBytes]

theorem toNat_byte (w : UInt64) {i : Nat} (hi : i < 8) :
    (w >>> (8 * i).toUInt64).toUInt8.toNat = w.toNat / 256 ^ i % 256 := by
  have hshift : 8 * i % 18446744073709551616 % 64 = 8 * i := by omega
  simp [UInt64.toNat_shiftRight, Nat.shiftRight_eq_div_pow, hshift, Nat.pow_mul]

theorem wordBytes_injective : Function.Injective wordBytes := by
  intro v w h
  have hbyte (i : Nat) (hi : i < 8) : v.toNat / 256 ^ i % 256 = w.toNat / 256 ^ i % 256 := by
    rw [← toNat_byte v hi, ← toNat_byte w hi,
      List.map_inj_left.mp h i (List.mem_range.mpr hi)]
  -- The words agree in ever more of their lowest bytes.
  have hlow (n : Nat) (hn : n ≤ 8) : v.toNat % 256 ^ n = w.toNat % 256 ^ n := by
    induction n with
    | zero => simp [Nat.mod_one]
    | succ n ih => rw [Nat.mod_pow_succ, Nat.mod_pow_succ, ih (by omega), hbyte n (by omega)]
  apply UInt64.toNat_inj.mp
  simpa [Nat.mod_eq_of_lt v.toNat_lt, Nat.mod_eq_of_lt w.toNat_lt] using hlow 8 le_rfl

def saltBytes (module : ByteString) (sig : Signature) : List UInt8 :=
  module.bytes ++ 0 :: wordBytes sig.bits

theorem salted_eq (module : ByteString) (sig : Signature) :
    sig.salted module = ⟨hashBytes (saltBytes module sig)⟩ :=
  rfl

/-- The signature has a fixed width, so no path can run into it. -/
theorem saltBytes_inj {module module' : ByteString} {sig sig' : Signature} :
    saltBytes module sig = saltBytes module' sig' ↔ module = module' ∧ sig = sig' := by
  constructor
  · intro h
    obtain ⟨hmodule, hword⟩ := List.append_inj' h (by simp)
    have hbits := wordBytes_injective (List.cons.inj hword).2
    exact ⟨by cases module; cases module'; exact congrArg ByteString.mk hmodule,
      by cases sig; cases sig'; exact congrArg Signature.mk hbits⟩
  · rintro ⟨rfl, rfl⟩
    rfl

/-- The hash tells byte strings apart. -/
def Collisionless (bs : List (List UInt8)) : Prop :=
  ∀ a ∈ bs, ∀ b ∈ bs, hashBytes a = hashBytes b → a = b

instance (bs : List (List UInt8)) : Decidable (Collisionless bs) :=
  inferInstanceAs (Decidable (∀ a ∈ bs, ∀ b ∈ bs, hashBytes a = hashBytes b → a = b))

theorem Collisionless.salted_inj {bs : List (List UInt8)} (h : Collisionless bs)
    {module module' : ByteString} {sig sig' : Signature} (hmem : saltBytes module sig ∈ bs)
    (hmem' : saltBytes module' sig' ∈ bs) (heq : sig.salted module = sig'.salted module') :
    module = module' ∧ sig = sig' := by
  rw [salted_eq, salted_eq, Signature.mk.injEq] at heq
  exact saltBytes_inj.mp (h _ hmem _ hmem' heq)

end Signature

namespace Pass

def structSignature (pass : Pass) (m : Module) (st : StructTy) : Signature :=
  (⟨pass.names, m.typeDefs⟩ : TypeView).signature st.toTy

def salts (pass : Pass) : List (List UInt8) :=
  pass.program.flatMap fun file =>
    match file.content with
    | some m =>
      m.structTypes.map fun st => Signature.saltBytes file.path (pass.structSignature m st)
    | none => []

theorem mem_salts {pass : Pass} {i : Nat} {path : ByteString} {m : Module}
    (hfile : pass.Holds i path m) {st : StructTy} (hst : st ∈ m.structTypes) :
    Signature.saltBytes path (pass.structSignature m st) ∈ pass.salts := by
  apply List.mem_flatMap.mpr
  exact ⟨⟨path, some m⟩, List.mem_of_getElem? hfile, List.mem_map_of_mem hst⟩

/-! ### What preparation marks -/

theorem discover_visible (pass : Pass) (module : Nat) (path : ByteString) (m : Module)
    (s : PassState) :
    (pass.discover module path m s).2.2.context.visible = s.context.visible := by
  unfold discover
  split
  · rfl
  · dsimp only
    generalize Scanner.scan _ _ = r
    obtain ⟨⟨facts, failure⟩, memory⟩ := r
    have hfacts := (pass.recordFacts_visibility module s.context facts).1
    cases failure with
    | none => exact hfacts
    | some f => exact (pass.recordFacts_visibility module _ f.1).1.trans hfacts

theorem mem_visible_prepare (pass : Pass) (module : Nat) (s : PassState) (sig : Signature) :
    sig ∈ (pass.prepare module s).2.context.visible ↔
      sig ∈ s.context.visible ∨ pass.Marks module sig := by
  obtain ⟨path, m, hfile⟩ | hnot := pass.holds_or_empty module
  · simp only [prepare, hfile, discover_visible, mem_visible_registerVisible, hfile.marks_iff]
  · simp [prepare_of_empty hnot, not_marks_of_empty hnot]

def prepared (pass : Pass) (config : Config) : PassState :=
  ((pass.driver config).settle pass.prepare (List.range pass.program.length)
    (pass.start config)).state

/-- Preparation leaves the marks of all modules and no others. -/
theorem mem_visible_prepared (pass : Pass) (config : Config) (sig : Signature) :
    sig ∈ (pass.prepared config).context.visible ↔ ∃ i, pass.Marks i sig := by
  constructor
  · intro h
    refine (pass.driver config).settle_state_keeps
      (P := fun s => sig ∈ s.context.visible → ∃ i, pass.Marks i sig) ?_ ?_ h
    · intro i _ s ih hsig
      rcases (pass.mem_visible_prepare i s sig).mp hsig with hsig | hmark
      · exact ih hsig
      · exact ⟨i, hmark⟩
    · intro hsig
      cases hsig
  · rintro ⟨i, hmark⟩
    have hi : i ∈ List.range pass.program.length := by
      obtain ⟨path, m, hfile, -⟩ := hmark
      exact List.mem_range.mpr (List.getElem?_eq_some_iff.mp hfile).1
    have hd : ∀ s, (pass.driver config).cancelled s = false := fun _ => rfl
    have hkeep : ∀ j ∈ List.range pass.program.length, ∀ s : PassState,
        sig ∈ s.context.visible → sig ∈ (pass.prepare j s).2.context.visible :=
      fun j _ s hs => (pass.mem_visible_prepare j s sig).mpr (.inl hs)
    apply Driver.settle_of_visit (P := fun s => sig ∈ s.context.visible) hd hkeep
    exact Driver.visit_brings (P := fun s => sig ∈ s.context.visible) hkeep hi
      (fun s => (pass.mem_visible_prepare i s sig).mpr (.inr hmark)) _

/-! ### What the phases leave -/

theorem analyze_visible (pass : Pass) (module : Nat) (s : PassState) :
    (pass.analyze module s).2.context.visible = s.context.visible := by
  unfold analyze
  split
  · next path m hfile =>
    have hd := pass.discover_visible module path m s
    generalize pass.discover module path m s = r at hd ⊢
    obtain ⟨found, failure, t⟩ := r
    cases failure with
    | some e => exact hd
    | none =>
      dsimp only
      rw [Context.foldl_eq_applyAll resolveCall]
      exact Context.applyAll_keeps (P := fun c => c.visible = s.context.visible)
        (fun _ _ _ hc => hc) found hd
  · rfl

theorem run_visible (pass : Pass) (config : Config) :
    ((pass.driver config).run (List.range pass.program.length)
      (pass.start config)).state.context.visible = (pass.prepared config).context.visible := by
  refine Driver.run_keeps_prepared
    (P := fun s : PassState => s.context.visible = (pass.prepared config).context.visible)
    ?_ ?_ rfl
  · intro i _ s hs
    exact (pass.analyze_visible i s).trans hs
  · intro i _ s hs
    simp only [driver, modulePass, finish]
    split <;> exact hs

def Shows (pass : Pass) (file : ModuleFile) (sig : Signature) : Prop :=
  ∃ m, file.content = some m ∧ ∃ st, m.Reaches st ∧ pass.structSignature m st = sig

theorem visibleIn_iff_of_marks {pass : Pass} (hpaths : pass.DistinctPaths) {c : Context}
    (hc : ∀ sig, sig ∈ c.visible ↔ ∃ i, pass.Marks i sig) {file : ModuleFile}
    (hfile : file ∈ pass.program) {sig : Signature}
    (hhash : Signature.Collisionless (Signature.saltBytes file.path sig :: pass.salts)) :
    c.visibleIn file.path sig = true ↔ pass.Shows file sig := by
  simp only [Context.visibleIn, Context.isVisible, List.contains_iff_mem, hc]
  constructor
  · rintro ⟨i, path, m, hholds, st, hst, hmark⟩
    have hsalt := List.mem_cons_of_mem (Signature.saltBytes file.path sig) (mem_salts hholds hst)
    obtain ⟨rfl, hsig⟩ := hhash.salted_inj hsalt List.mem_cons_self hmark
    have hsame : (⟨file.path, some m⟩ : ModuleFile) = file :=
      List.inj_on_of_nodup_map hpaths (List.mem_of_getElem? hholds) hfile rfl
    have hreach := Module.mem_structTypes_iff_reaches.mp hst
    exact ⟨m, congrArg ModuleFile.content hsame.symm, st, hreach, hsig⟩
  · rintro ⟨m, hm, st, hst, rfl⟩
    obtain ⟨i, hi⟩ := List.mem_iff_getElem?.mp hfile
    obtain ⟨path, content⟩ := file
    subst hm
    exact ⟨i, path, m, hi, st, Module.mem_structTypes_iff_reaches.mpr hst, rfl⟩

end Pass

/-- Once the modules are prepared, and still when the run is over, a signature is visible in a
module exactly if the module reaches a struct of that signature. The walk through the types of the
module empties its stack in finitely many steps wherever it stands, and it finds each struct in
reach once. -/
theorem visibleIn_iff_reaches {p : Program} (hpaths : (p.map ModuleFile.path).Nodup)
    (config : Config) {file : ModuleFile} (hfile : file ∈ p) (sig : Signature)
    (hhash : Signature.Collisionless
      (Signature.saltBytes file.path sig :: (Pass.ofProgram p).salts)) :
    let pass := Pass.ofProgram p
    let run := (pass.driver config).run (List.range p.length) (pass.start config)
    ((pass.prepared config).context.visibleIn file.path sig = true ↔ pass.Shows file sig) ∧
      (run.state.context.visibleIn file.path sig = true ↔ pass.Shows file sig) ∧
      ∀ m, file.content = some m →
        (∀ w : Walk m.typeGraph,
          w.drain.stack = [] ∧ ∃ n ≤ w.potential, Walk.step^[n] w = w.drain) ∧
        m.structTypes.Nodup ∧ ∀ st, st ∈ m.structTypes ↔ m.Reaches st := by
  intro pass run
  have hprepared := pass.mem_visible_prepared config
  have hrun : run.state.context.visible = (pass.prepared config).context.visible :=
    pass.run_visible config
  refine ⟨Pass.visibleIn_iff_of_marks hpaths hprepared hfile hhash,
    Pass.visibleIn_iff_of_marks hpaths (by simpa only [hrun] using hprepared) hfile hhash, ?_⟩
  intro m _
  exact ⟨fun w => ⟨w.stack_drain, w.exists_iterate_step⟩, m.nodup_structTypes,
    fun st => Module.mem_structTypes_iff_reaches⟩

namespace Chain

/-- A link of a chain: the next link, and a function that is given links and items. -/
def link : StructTy where
  id := .named "link"
  packed := false
  incomplete := false
  fields := [.ptr 0 (.named "link"),
    .ptr 0 (.func .void [.array 2 (.ptr 0 (.named "link")), .ptr 0 (.named "item")] false)]

def walker : Module := { Module.empty with
  typeDefs := [("item", .incomplete "item"), ("link", link.toTy)]
  funcs := [{
    ident := .named "next", linkage := .unspecified, space := 0, ret := .ptr 0 (.named "link")
    params := [.ptr 0 (.named "link")], variadic := false, attachments := []
    blocks := [⟨[⟨.load (.ptr 0 (.named "link")) (.param 0), .ptr 0 (.named "link"), []⟩],
      .ret none⟩] }] }

def maker : Module := { Module.empty with
  typeDefs := [("item", .incomplete "item")] }

def program : Program := [⟨"chain", some walker⟩, ⟨"chain/item", some maker⟩, ⟨"", none⟩]

def pass : Pass := .ofProgram program

end Chain

open Chain in
theorem visibleIn_iff_reaches_chain :
    (program.map ModuleFile.path).Nodup ∧
      (∀ file ∈ program, Signature.Collisionless
        (Signature.saltBytes file.path (pass.structSignature walker link) :: pass.salts)) ∧
      ((pass.prepared .standard).context.visibleIn "chain"
        (pass.structSignature walker link) = true) ∧
      (pass.prepared .standard).context.visibleIn "chain/item"
        (pass.structSignature walker link) = false := by
  have hpaths : (program.map ModuleFile.path).Nodup := by decide +kernel
  have hhash : ∀ file ∈ program, Signature.Collisionless
      (Signature.saltBytes file.path (pass.structSignature walker link) :: pass.salts) := by
    decide +kernel
  have hwalker : (⟨"chain", some walker⟩ : ModuleFile) ∈ program := List.mem_cons_self
  have hmaker : (⟨"chain/item", some maker⟩ : ModuleFile) ∈ program :=
    List.mem_cons_of_mem _ List.mem_cons_self
  obtain ⟨hchain, -, hstructs⟩ := visibleIn_iff_reaches hpaths .standard hwalker
    (pass.structSignature walker link) (hhash _ hwalker)
  obtain ⟨hitem, -, hstructs'⟩ := visibleIn_iff_reaches hpaths .standard hmaker
    (pass.structSignature walker link) (hhash _ hmaker)
  refine ⟨hpaths, hhash, ?_, ?_⟩
  · apply hchain.mpr
    exact ⟨walker, rfl, link, ((hstructs walker rfl).2.2 link).mp (by decide +kernel), rfl⟩
  · rw [← Bool.not_eq_true]
    intro hvisible
    obtain ⟨m, hm, st, hst, hsig⟩ := hitem.mp hvisible
    obtain rfl := Option.some.inj hm
    have hother : ∀ st ∈ maker.structTypes,
        pass.structSignature maker st ≠ pass.structSignature walker link := by decide +kernel
    exact hother st (((hstructs' maker rfl).2.2 st).mpr hst) hsig

end CallTargets
