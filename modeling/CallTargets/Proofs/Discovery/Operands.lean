import CallTargets.Proofs.Discovery.Constants
import CallTargets.Proofs.Discovery.Scan

/-!
# Where functions occur

A module takes up constants in the initial values of its globals and in the operands of its
functions. Which operands count, and how their addresses get out, is listed here for each operation;
the callee of a call is none of them. The main statement is that a scan within its limits finds
exactly the functions inside the constants that are taken up, the fields of constant structs and of
direct stores, and the exported globals that functions are put into.
-/
namespace CallTargets

namespace IR

def Value.const? : Value → Option Const
  | .const c => some c
  | _ => none

namespace Frame

/-! ### Casts -/

/-- What a value is cast from, if it is a pointer cast. -/
def uncast? (fr : Frame) (v : Value) : Option Value :=
  match v with
  | .const (.cast kind c _) => if kind.isPointerCast then some (.const c) else none
  | .const _ => none
  | _ =>
    match (fr.inst? v).map Inst.op with
    | some (.cast kind src _) => if kind.isPointerCast then some src else none
    | _ => none

inductive LeadsTo (fr : Frame) : Value → Value → Prop
  | self {v : Value} (bare : fr.uncast? v = none) : LeadsTo fr v v
  | cast {v w u : Value} (step : fr.uncast? v = some w) (rest : LeadsTo fr w u) : LeadsTo fr v u

theorem stripWithin_zero (fr : Frame) (v : Value) : fr.stripWithin 0 v = v := by
  cases v <;> rfl

theorem stripWithin_succ (fr : Frame) (n : Nat) (v : Value) :
    fr.stripWithin (n + 1) v = ((fr.uncast? v).map (fr.stripWithin n)).getD v := by
  cases v with
  | const c =>
    cases c with
    | cast kind c t =>
      by_cases hkind : kind.isPointerCast <;> simp [stripWithin, Const.strip, uncast?, hkind]
    | _ => rfl
  | inst b i =>
    cases hop : (fr.inst? (.inst b i)).map Inst.op with
    | none => simp [stripWithin, uncast?, hop]
    | some op =>
      cases op with
      | cast kind src t =>
        by_cases hkind : kind.isPointerCast <;> simp [stripWithin, uncast?, hop, hkind]
      | _ => simp [stripWithin, uncast?, hop]
  | _ => rfl

/-- What holds of a value and passes on to what a value is cast from holds without the casts. -/
theorem stripWithin_induction {fr : Frame} {P : Value → Prop}
    (hstep : ∀ v w, fr.uncast? v = some w → P v → P w) {v : Value} (hv : P v) (n : Nat) :
    P (fr.stripWithin n v) := by
  induction n generalizing v with
  | zero => rwa [stripWithin_zero]
  | succ n ih =>
    rw [stripWithin_succ]
    cases hw : fr.uncast? v with
    | none => exact hv
    | some w => exact ih (hstep v w hw hv)

theorem leadsTo_stripWithin {fr : Frame} {n : Nat} {v w : Value}
    (h : fr.uncast? (fr.stripWithin n v) = none) : fr.LeadsTo v w ↔ fr.stripWithin n v = w := by
  induction n generalizing v with
  | zero =>
    rw [stripWithin_zero] at h ⊢
    constructor
    · rintro (- | ⟨hstep, -⟩)
      · rfl
      · rw [h] at hstep
        cases hstep
    · rintro rfl
      exact .self h
  | succ n ih =>
    rw [stripWithin_succ] at h ⊢
    cases hv : fr.uncast? v with
    | none =>
      constructor
      · rintro (- | ⟨hstep, -⟩)
        · simp
        · rw [hv] at hstep
          cases hstep
      · rintro rfl
        simpa using .self hv
    | some u =>
      rw [hv] at h
      rw [Option.map_some, Option.getD_some, ← ih h]
      constructor
      · rintro (hbare | ⟨hstep, hrest⟩)
        · rw [hv] at hbare
          cases hbare
        · rw [hv] at hstep
          cases hstep
          exact hrest
      · exact .cast hv

/-- An operand within the limits: all its casts are looked through, and so is the constant it is. -/
structure Modest (fr : Frame) (v : Value) : Prop where
  short : fr.uncast? (fr.strip v) = none
  const : ∀ c ∈ (fr.strip v).const?, c.Modest

instance (fr : Frame) (v : Value) : Decidable (fr.Modest v) :=
  decidable_of_iff (fr.uncast? (fr.strip v) = none ∧ ∀ c ∈ (fr.strip v).const?, c.Modest)
    ⟨fun h => ⟨h.1, h.2⟩, fun h => ⟨h.short, h.const⟩⟩

theorem Modest.leadsTo_iff {fr : Frame} {v w : Value} (h : fr.Modest v) :
    fr.LeadsTo v w ↔ fr.strip v = w :=
  leadsTo_stripWithin h.short

/-! ### Globals behind addresses -/

/-- An address points into a global: it is the global, casts apart, or is computed from an address
that points into it. The number counts the computations. -/
inductive PointsInto (fr : Frame) (g : Global) : Nat → Value → Prop
  | global {v : Value} {i : Nat} (leads : fr.LeadsTo v (.const (.global i)))
      (known : fr.module.globals[i]? = some g) : PointsInto fr g 0 v
  | gep {n : Nat} {v w : Value} {a : Gep} (leads : fr.LeadsTo v w) (computed : fr.gep? w = some a)
      (src : PointsInto fr g n a.src) : PointsInto fr g (n + 1) v

end Frame

/-! ### Operands -/

def Terminator.operands : Terminator → List Value
  | .ret v => v.toList
  | .invoke args => args
  | .other => []

def Func.operands (f : Func) : List Value :=
  f.blocks.flatMap fun b => (b.insts.flatMap fun i => i.op.operands) ++ b.term.operands

/-- The operands of an operation that count, and how their addresses get out. -/
def Op.uses : Op → List (Value × Escapes)
  | .call c => c.args.map fun v => (v, .argument)
  | .store src _ => [(src, .store)]
  | op => op.operands.map fun v => (v, .other)

def Terminator.uses : Terminator → List (Value × Escapes)
  | .ret v => v.toList.map fun v => (v, .returned)
  | .invoke args => args.map fun v => (v, .argument)
  | .other => []

def Func.uses (f : Func) : List (Value × Escapes) :=
  f.blocks.flatMap fun b => (b.insts.flatMap fun i => i.op.uses) ++ b.term.uses

def Func.Stores (f : Func) (src dst : Value) : Prop :=
  ∃ b ∈ f.blocks, ∃ i ∈ b.insts, i.op = .store src dst

theorem Op.uses_operands {op : Op} {v : Value} {how : Escapes} (h : (v, how) ∈ op.uses) :
    v ∈ op.operands := by
  cases op with
  | call c => simp_all [uses, operands]
  | store src dst => simp_all [uses, operands]
  | _ =>
    obtain ⟨w, hw, heq⟩ := List.mem_map.mp h
    cases heq
    exact hw

theorem Terminator.uses_operands {t : Terminator} {v : Value} {how : Escapes}
    (h : (v, how) ∈ t.uses) : v ∈ t.operands := by
  cases t <;> simp_all [uses, operands]

theorem Func.mem_operands_of_inst {f : Func} {b : Block} (hb : b ∈ f.blocks) {i : Inst}
    (hi : i ∈ b.insts) {v : Value} (hv : v ∈ i.op.operands) : v ∈ f.operands :=
  List.mem_flatMap.mpr ⟨b, hb, List.mem_append_left _ (List.mem_flatMap.mpr ⟨i, hi, hv⟩)⟩

theorem Func.uses_operands {f : Func} {v : Value} {how : Escapes} (h : (v, how) ∈ f.uses) :
    v ∈ f.operands := by
  obtain ⟨b, hb, h⟩ := List.mem_flatMap.mp h
  rcases List.mem_append.mp h with h | h
  · obtain ⟨i, hi, h⟩ := List.mem_flatMap.mp h
    exact mem_operands_of_inst hb hi (Op.uses_operands h)
  · exact List.mem_flatMap.mpr ⟨b, hb, List.mem_append_right _ (Terminator.uses_operands h)⟩

/-- A constant that a module takes up, and how the addresses in it get out: the initial value of a
global, or a constant that a counting operand is. -/
inductive Module.Exposes (m : Module) : Const → Escapes → Prop
  | initial {g : Global} {c : Const} (global : g ∈ m.globals) (init : g.init = some c) :
      Exposes m c .global
  | operand {f : Func} {v : Value} {how : Escapes} {c : Const} (func : f ∈ m.funcs)
      (use : (v, how) ∈ f.uses) (leads : Frame.LeadsTo ⟨m, some f⟩ v (.const c)) : Exposes m c how

/-- A module puts a function into a global other modules can name: the function is inside the
initial value of the global, or is stored, as it stands, to an address that points into it. -/
inductive Module.Publishes (m : Module) (f : Nat) (g : Global) : Prop
  | initial {c : Const} (global : g ∈ m.globals) (exported : g.linkage.isLocal = false)
      (init : g.init = some c) (inside : .func f ∈ c.inside)
  | stored {fn : Func} {src dst : Value} {n : Nat} (func : fn ∈ m.funcs)
      (store : fn.Stores src dst) (value : Frame.LeadsTo ⟨m, some fn⟩ src (.const (.func f)))
      (few : n < maxGeps) (address : Frame.PointsInto ⟨m, some fn⟩ g n dst)
      (exported : g.linkage.isLocal = false)

structure Module.Modest (m : Module) : Prop where
  globals : ∀ g ∈ m.globals, ∀ c ∈ g.init, c.Modest
  operands : ∀ f ∈ m.funcs, ∀ v ∈ f.operands, Frame.Modest ⟨m, some f⟩ v

instance (m : Module) : Decidable m.Modest :=
  decidable_of_iff ((∀ g ∈ m.globals, ∀ c ∈ g.init, c.Modest) ∧
    ∀ f ∈ m.funcs, ∀ v ∈ f.operands, Frame.Modest ⟨m, some f⟩ v)
    ⟨fun h => ⟨h.1, h.2⟩, fun h => ⟨h.globals, h.operands⟩⟩

/-! ### Limits -/

theorem Const.Modest.bare {c : Const} (h : c.Modest) : c.bare.Modest :=
  ⟨h.short.bare, by rw [walked_bare]; exact h.small⟩

theorem Const.Modest.gep_src {elem : Ty} {src : Const} {indices : List Const}
    (h : (Const.gep elem src indices).Modest) : src.Modest where
  short := h.short.part (by simp [parts])
  small := by
    have hsmall := h.small
    rw [walked] at hsmall
    omega

theorem Frame.modest_const {fr : Frame} {c : Const} (h : c.Modest) : fr.Modest (.const c) := by
  have hstrip : fr.strip (.const c) = .const c.bare := by
    rw [strip, stripWithin, h.short.strip_eq]
  constructor
  · rw [hstrip]
    have hcasts := c.casts_bare
    cases hbare : c.bare with
    | cast kind d t =>
      rw [hbare] at hcasts
      by_cases hkind : kind.isPointerCast
      · simp [Const.casts, hkind] at hcasts
      · simp [uncast?, hkind]
    | _ => rfl
  · intro d hd
    rw [hstrip] at hd
    cases hd
    exact h.bare

/-- The limits hold along a chain of address computations. -/
theorem Module.Modest.gep_src {m : Module} (h : m.Modest) {f : Func} (hf : f ∈ m.funcs) {v : Value}
    (hv : Frame.Modest ⟨m, some f⟩ v) {a : Gep}
    (ha : Frame.gep? ⟨m, some f⟩ (Frame.strip ⟨m, some f⟩ v) = some a) :
    Frame.Modest ⟨m, some f⟩ a.src := by
  cases hstrip : Frame.strip ⟨m, some f⟩ v with
  | const c =>
    have hc := hv.const c (by rw [hstrip]; rfl)
    rw [hstrip] at ha
    cases c with
    | gep elem src indices =>
      cases ha
      exact Frame.modest_const hc.gep_src
    | _ => cases ha
  | inst b i =>
    rw [hstrip] at ha
    simp only [Frame.gep?, Frame.inst?] at ha
    split at ha
    · next elem src indices hop =>
      cases ha
      obtain ⟨inst, hinst, hop⟩ := Option.map_eq_some_iff.mp hop
      have hinst : f.inst? b i = some inst := hinst
      obtain ⟨blk, hblk, hinst⟩ := Option.bind_eq_some_iff.mp hinst
      apply h.operands f hf
      apply Func.mem_operands_of_inst (List.mem_of_getElem? hblk) (List.mem_of_getElem? hinst)
      rw [hop]
      exact List.mem_cons_self
    · cases ha
  | _ =>
    rw [hstrip] at ha
    cases ha

/-- The global behind an address is the one it points into, within the limits. -/
theorem Module.Modest.baseGlobalWithin_iff {m : Module} (h : m.Modest) {f : Func}
    (hf : f ∈ m.funcs) {k : Nat} {v : Value} (hv : Frame.Modest ⟨m, some f⟩ v) {g : Global} :
    Frame.baseGlobalWithin ⟨m, some f⟩ k v = some g ↔
      ∃ n < k, Frame.PointsInto ⟨m, some f⟩ g n v := by
  induction k generalizing v with
  | zero => simp [Frame.baseGlobalWithin]
  | succ k ih =>
    rw [Frame.baseGlobalWithin]
    split
    · next i hstrip =>
      constructor
      · intro hg
        exact ⟨0, k.succ_pos, .global (hv.leadsTo_iff.mpr hstrip) hg⟩
      · rintro ⟨n, -, hpoints⟩
        cases hpoints with
        | global hleads hg =>
          rw [hv.leadsTo_iff, hstrip] at hleads
          cases hleads
          exact hg
        | gep hleads hgep _ =>
          rw [hv.leadsTo_iff, hstrip] at hleads
          subst hleads
          cases hgep
    · next w hw =>
      rw [Option.bind_eq_some_iff]
      constructor
      · rintro ⟨a, ha, hg⟩
        obtain ⟨n, hn, hpoints⟩ := (ih (h.gep_src hf hv ha)).mp hg
        exact ⟨n + 1, Nat.succ_lt_succ hn, .gep (hv.leadsTo_iff.mpr rfl) ha hpoints⟩
      · rintro ⟨n, hn, hpoints⟩
        cases hpoints with
        | global hleads _ =>
          rw [hv.leadsTo_iff] at hleads
          exact absurd hleads (hw _)
        | gep hleads hgep hsrc =>
          rw [hv.leadsTo_iff] at hleads
          subst hleads
          exact ⟨_, hgep, (ih (h.gep_src hf hv hgep)).mpr ⟨_, Nat.lt_of_succ_lt_succ hn, hsrc⟩⟩

end IR

open IR

/-! ### What operands tell -/

theorem IR.Const.not_tells_global {v : TypeView} {how : Escapes} {via : Option ByteString} {i : Nat}
    {fact : Fact} : ¬ (Const.global i).Tells v how via fact := by
  rintro (h | ⟨-, h⟩ | ⟨h, -, -⟩) <;> simp [Const.inside] at h

theorem IR.Const.Tells.call?_eq_none {v : TypeView} {how : Escapes} {via : Option ByteString}
    {c : Const} {fact : Fact} (h : c.Tells v how via fact) : fact.call? = none := by
  cases h <;> rfl

theorem mem_operandFacts {v : TypeView} {fr : Frame} {how : Escapes} {operand : Value}
    (h : fr.Modest operand) {fact : Fact} :
    fact ∈ operandFacts v fr how operand ↔
      ∃ c, fr.LeadsTo operand (.const c) ∧ c.Tells v how none fact := by
  have hconst {c : Const} (hc : fr.strip operand = .const c) :
      (∃ d, fr.LeadsTo operand (.const d) ∧ d.Tells v how none fact) ↔
        c.Tells v how none fact := by
    simp [h.leadsTo_iff, hc]
  unfold operandFacts
  split
  · next f hf =>
    rw [hconst hf, Const.tells_func]
    rfl
  · next i hi =>
    rw [hconst hi]
    simp [Const.not_tells_global]
  · next c _ _ hc => rw [hconst hc, mem_constantFacts (h.const c (by rw [hc]; rfl))]
  · next hnone =>
    simp only [List.not_mem_nil, false_iff, not_exists, not_and]
    intro c hc
    exact absurd (h.leadsTo_iff.mp hc) (hnone c)

namespace Scanner

abbrev frame (sc : Scanner) (f : Func) : Frame := ⟨sc.module, some f⟩

/-! ### What steps tell -/

def Step.func : Step → Func
  | .inst f _ _ | .term f _ => f

def Step.uses : Step → List (Value × Escapes)
  | .inst _ _ i => i.op.uses
  | .term _ t => t.uses

def Step.store? : Step → Option (Value × Value)
  | .inst _ _ i =>
    match i.op with
    | .store src dst => some (src, dst)
    | _ => none
  | .term _ _ => none

/-- What a direct store tells of the function it stores, beyond that its address is taken. -/
inductive StoreTells (sc : Scanner) (memory : Memory) (s : Step) : Fact → Prop
  | evidence {src dst : Value} {f : Nat} {r : FieldRef} (store : s.store? = some (src, dst))
      (value : (sc.frame s.func).strip src = .const (.func f))
      (field : (sc.resolve (sc.frame s.func) dst memory).1 = some r) :
      StoreTells sc memory s (.evidence f (sc.fieldSignature r) r.index)
  | published {src dst : Value} {f : Nat} {g : Global} (store : s.store? = some (src, dst))
      (value : (sc.frame s.func).strip src = .const (.func f))
      (address : (sc.frame s.func).baseGlobal? dst = some g)
      (exported : g.linkage.isLocal = false) :
      StoreTells sc memory s (.published f g.name)

theorem mem_storeFacts {sc : Scanner} {f : Func} {id : CallId} {i : Inst} {src dst : Value}
    (hop : i.op = .store src dst) (memory : Memory) {fact : Fact} :
    fact ∈ (sc.storeFacts (sc.frame f) src dst memory).1 ↔
      fact ∈ operandFacts sc.view (sc.frame f) .store src ∨
        sc.StoreTells memory (.inst f id i) fact := by
  have hstore : (Step.inst f id i).store? = some (src, dst) := by simp [Step.store?, hop]
  have hinv {src' dst' : Value} (h : (Step.inst f id i).store? = some (src', dst')) :
      src' = src ∧ dst' = dst := by
    rw [hstore] at h
    cases h
    exact ⟨rfl, rfl⟩
  by_cases hfunc : ∃ k, (sc.frame f).strip src = .const (.func k)
  · obtain ⟨k, hk⟩ := hfunc
    rw [sc.storeFacts_of_func hk, List.mem_cons, List.mem_append, operandFacts, hk]
    simp only [List.mem_singleton]
    refine or_congr_right ?_
    constructor
    · rintro (h | h)
      · split at h
        · next r hr =>
          rw [List.mem_singleton.mp h]
          exact .evidence hstore hk hr
        · cases h
      · split at h
        · next g hg =>
          split at h
          · cases h
          · next hlocal =>
            rw [List.mem_singleton.mp h]
            exact .published hstore hk hg (by simpa using hlocal)
        · cases h
    · rintro (⟨hs, hv, hr⟩ | ⟨hs, hv, hg, hexp⟩)
      · obtain ⟨rfl, rfl⟩ := hinv hs
        cases hk.symm.trans hv
        rw [Step.func] at hr
        exact .inl (by simp [hr])
      · obtain ⟨rfl, rfl⟩ := hinv hs
        cases hk.symm.trans hv
        rw [Step.func] at hg
        exact .inr (by simp [hg, hexp])
  · rw [sc.storeFacts_of_not_func (not_exists.mp hfunc)]
    refine (or_iff_left ?_).symm
    rintro (⟨hs, hv, -⟩ | ⟨hs, hv, -, -⟩)
    · obtain ⟨rfl, rfl⟩ := hinv hs
      exact hfunc ⟨_, hv⟩
    · obtain ⟨rfl, rfl⟩ := hinv hs
      exact hfunc ⟨_, hv⟩

theorem not_storeTells {sc : Scanner} {memory : Memory} {s : Step} (h : s.store? = none)
    {fact : Fact} : ¬ sc.StoreTells memory s fact := by
  rintro (⟨hs, -, -⟩ | ⟨hs, -, -, -⟩) <;> rw [h] at hs <;> cases hs

/-- A step tells what its operands tell and what it stores where, and of calls nothing but that
they are there. -/
theorem mem_stepFacts {sc : Scanner} {s : Step} {memory : Memory} {fact : Fact}
    (hcall : fact.call? = none) :
    fact ∈ (sc.stepFacts s memory).1.facts ↔
      (∃ u ∈ s.uses, fact ∈ operandFacts sc.view (sc.frame s.func) u.2 u.1) ∨
        sc.StoreTells memory s fact := by
  cases s with
  | term f t =>
    have hfacts : (sc.stepFacts (.term f t) memory).1.facts = sc.termFacts f t := rfl
    rw [or_iff_left (not_storeTells rfl), hfacts]
    cases t with
    | ret v => cases v <;> simp [termFacts, Step.uses, Terminator.uses, Step.func]
    | invoke args => simp [termFacts, Step.uses, Terminator.uses, Step.func]
    | other => simp [termFacts, Step.uses, Terminator.uses]
  | inst f id i =>
    rw [stepFacts]
    cases hop : i.op with
    | call c =>
      have hargs : (∃ u ∈ (Step.inst f id i).uses,
          fact ∈ operandFacts sc.view (sc.frame f) u.2 u.1) ↔ fact ∈ sc.argFacts f c := by
        simp [Step.uses, hop, Op.uses, argFacts]
      have hfacts : fact ∈ (sc.callFacts f id c i memory).1.facts ↔ fact ∈ sc.argFacts f c := by
        have hsite {cs : CallSite} : fact ≠ .call cs := by
          rintro rfl
          cases hcall
        simp only [callFacts]
        cases isDirect ⟨sc.module, some f⟩ c.callee with
        | true => exact .rfl
        | false =>
          cases sc.module.callType? f c with
          | none => exact .rfl
          | some t => exact List.mem_append.trans (or_iff_left (by simp [hsite]))
      rw [or_iff_left (not_storeTells (by simp [Step.store?, hop])), Step.func, hargs, ← hfacts]
      simp only [instFacts, hop]
    | store src dst =>
      have hstep : (∃ u ∈ (Step.inst f id i).uses,
          fact ∈ operandFacts sc.view (sc.frame f) u.2 u.1) ↔
            fact ∈ operandFacts sc.view (sc.frame f) .store src := by
        simp [Step.uses, hop, Op.uses]
      rw [Step.func, hstep, ← mem_storeFacts hop]
      simp only [instFacts, hop]
      exact .rfl
    | _ =>
      rw [or_iff_left (not_storeTells (by simp [Step.store?, hop])), Step.func, Step.uses, hop]
      simp only [instFacts, hop, Op.uses, List.mem_map, exists_exists_and_eq_and]
      exact List.mem_flatMap

/-! ### What a scan tells -/

/-- The layouts remembered after some steps. -/
def memoryAfter (sc : Scanner) (steps : List Step) (memory : Memory) : Memory :=
  steps.foldl (fun memory s => (sc.stepFacts s memory).2) memory

theorem mem_factsAlong_iff {sc : Scanner} {steps : List Step} {memory : Memory} {fact : Fact} :
    fact ∈ sc.factsAlong steps memory ↔
      ∃ before s after, steps = before ++ s :: after ∧
        fact ∈ (sc.stepFacts s (sc.memoryAfter before memory)).1.facts := by
  induction steps generalizing memory with
  | nil => simp [factsAlong]
  | cons t rest ih =>
    rw [factsAlong, List.mem_append, ih]
    constructor
    · rintro (h | ⟨before, s, after, rfl, h⟩)
      · exact ⟨[], t, rest, rfl, h⟩
      · exact ⟨t :: before, s, after, rfl, h⟩
    · rintro ⟨before, s, after, heq, h⟩
      cases before with
      | nil =>
        cases heq
        exact .inl h
      | cons b before =>
        cases heq
        exact .inr ⟨before, s, after, rfl, h⟩

theorem mem_steps {sc : Scanner} {s : Step} :
    s ∈ sc.steps ↔ ∃ n f, sc.module.funcs[n]? = some f ∧ ∃ k b, f.blocks[k]? = some b ∧
      s ∈ blockSteps sc.index n f k b := by
  simp only [steps, List.mem_flatMap, Prod.exists, List.mk_mem_zipIdx_iff_getElem?]
  constructor
  · rintro ⟨f, n, hf, b, k, hb, hs⟩
    exact ⟨n, f, hf, k, b, hb, hs⟩
  · rintro ⟨n, f, hf, k, b, hb, hs⟩
    exact ⟨f, n, hf, b, k, hb, hs⟩

theorem blockSteps_func {module func block : Nat} {f : Func} {b : Block} {s : Step}
    (h : s ∈ blockSteps module func f block b) : s.func = f := by
  rcases List.mem_append.mp h with h | h
  · obtain ⟨x, -, rfl⟩ := List.mem_map.mp h
    rfl
  · rw [List.mem_singleton.mp h]
    rfl

theorem func_mem_of_step {sc : Scanner} {s : Step} (h : s ∈ sc.steps) :
    s.func ∈ sc.module.funcs := by
  obtain ⟨n, f, hf, k, b, -, hs⟩ := mem_steps.mp h
  rw [blockSteps_func hs]
  exact List.mem_of_getElem? hf

theorem blockSteps_uses (module func : Nat) (f : Func) (block : Nat) {b : Block}
    {u : Value × Escapes} :
    (∃ s ∈ blockSteps module func f block b, u ∈ s.uses) ↔
      u ∈ (b.insts.flatMap fun i => i.op.uses) ++ b.term.uses := by
  simp only [blockSteps, List.mem_append, List.mem_map, List.mem_singleton, or_and_right, exists_or,
    exists_eq_left, List.mem_flatMap]
  refine or_congr ⟨?_, ?_⟩ .rfl
  · rintro ⟨s, ⟨⟨i, n⟩, hi, rfl⟩, hu⟩
    rw [List.mk_mem_zipIdx_iff_getElem?] at hi
    exact ⟨i, List.mem_of_getElem? hi, hu⟩
  · rintro ⟨i, hi, hu⟩
    obtain ⟨n, hn⟩ := List.mem_iff_getElem?.mp hi
    exact ⟨_, ⟨(i, n), List.mk_mem_zipIdx_iff_getElem?.mpr hn, rfl⟩, hu⟩

theorem steps_uses {sc : Scanner} {f : Func} {u : Value × Escapes} :
    (∃ s ∈ sc.steps, s.func = f ∧ u ∈ s.uses) ↔ f ∈ sc.module.funcs ∧ u ∈ f.uses := by
  constructor
  · rintro ⟨s, hs, rfl, hu⟩
    refine ⟨func_mem_of_step hs, ?_⟩
    obtain ⟨n, f, -, k, b, hb, hs⟩ := mem_steps.mp hs
    rw [blockSteps_func hs]
    exact List.mem_flatMap.mpr
      ⟨b, List.mem_of_getElem? hb, (blockSteps_uses _ _ f _).mp ⟨s, hs, hu⟩⟩
  · rintro ⟨hf, hu⟩
    obtain ⟨n, hn⟩ := List.mem_iff_getElem?.mp hf
    obtain ⟨b, hb, hu⟩ := List.mem_flatMap.mp hu
    obtain ⟨k, hk⟩ := List.mem_iff_getElem?.mp hb
    obtain ⟨s, hs, hu⟩ := (blockSteps_uses sc.index n f k).mpr hu
    exact ⟨s, mem_steps.mpr ⟨n, f, hn, k, b, hk, hs⟩, blockSteps_func hs, hu⟩

theorem steps_store {sc : Scanner} {f : Func} {src dst : Value} :
    (∃ s ∈ sc.steps, s.func = f ∧ s.store? = some (src, dst)) ↔
      f ∈ sc.module.funcs ∧ f.Stores src dst := by
  constructor
  · rintro ⟨s, hs, rfl, hstore⟩
    refine ⟨func_mem_of_step hs, ?_⟩
    cases s with
    | term f t => cases hstore
    | inst f id i =>
      obtain ⟨-, -, hi⟩ := mem_steps_inst.mp hs
      obtain ⟨b, hb, hi⟩ := Option.bind_eq_some_iff.mp hi
      refine ⟨b, List.mem_of_getElem? hb, i, List.mem_of_getElem? hi, ?_⟩
      simp only [Step.store?] at hstore
      split at hstore
      · next hop =>
        cases hstore
        exact hop
      · cases hstore
  · rintro ⟨hf, b, hb, i, hi, hop⟩
    obtain ⟨n, hn⟩ := List.mem_iff_getElem?.mp hf
    obtain ⟨k, hk⟩ := List.mem_iff_getElem?.mp hb
    obtain ⟨j, hj⟩ := List.mem_iff_getElem?.mp hi
    have hmem : Step.inst f ⟨sc.index, n, k, j⟩ i ∈ sc.steps :=
      mem_steps_inst.mpr ⟨rfl, hn, by simp [Func.inst?, hk, hj]⟩
    exact ⟨_, hmem, rfl, by simp [Step.store?, hop]⟩

/-- A function, as it stands, is stored to an address that designates a field. The address is
resolved with the layouts remembered when the store is reached. -/
def StoresInField (sc : Scanner) (f : Nat) (r : FieldRef) : Prop :=
  ∃ before s after src dst, sc.steps = before ++ s :: after ∧ s.store? = some (src, dst) ∧
    (sc.frame s.func).LeadsTo src (.const (.func f)) ∧
    (sc.resolve (sc.frame s.func) dst (sc.memoryAfter before .empty)).1 = some r

inductive Shows (sc : Scanner) : Fact → Prop
  | taken {c : Const} {how : Escapes} {f : Nat} (exposed : sc.module.Exposes c how)
      (inside : .func f ∈ c.inside) : Shows sc (.taken f how)
  | field {c : Const} {how : Escapes} {t : Ty} {fields : List Const} {i : Nat} {d : Const} {f : Nat}
      (exposed : sc.module.Exposes c how) (struct : .struct t fields ∈ c.inside)
      (field : fields[i]? = some d) (func : d.bare = .func f) :
      Shows sc (.evidence f (sc.view.signature t) i)
  | stored {f : Nat} {r : FieldRef} (store : sc.StoresInField f r) :
      Shows sc (.evidence f (sc.fieldSignature r) r.index)
  | published {f : Nat} {g : Global} (global : sc.module.Publishes f g) :
      Shows sc (.published f g.name)

/-- What a constant that is taken up tells belongs to what the module shows. -/
theorem Shows.of_tells {sc : Scanner} {c : Const} {how : Escapes} {fact : Fact}
    (hc : sc.module.Exposes c how) (h : c.Tells sc.view how none fact) : sc.Shows fact := by
  cases h with
  | taken hf => exact .taken hc hf
  | published hvia => cases hvia
  | evidence hst hd hf => exact .field hc hst hd hf

variable {sc : Scanner}

theorem mem_globalFacts {g : Global} (hg : ∀ c ∈ g.init, c.Modest) {fact : Fact} :
    fact ∈ sc.globalFacts g ↔ ∃ c ∈ g.init,
      c.Tells sc.view .global (if g.linkage.isLocal then none else some g.name) fact := by
  unfold globalFacts
  cases hinit : g.init with
  | none => simp
  | some c => simp [mem_constantFacts (hg c hinit)]

theorem step_modest (hm : sc.module.Modest) {s : Step} (hs : s ∈ sc.steps) {u : Value × Escapes}
    (hu : u ∈ s.uses) : (sc.frame s.func).Modest u.1 := by
  obtain ⟨hf, hu⟩ := steps_uses.mp ⟨s, hs, rfl, hu⟩
  exact hm.operands _ hf _ (Func.uses_operands hu)

theorem store_modest (hm : sc.module.Modest) {s : Step} (hs : s ∈ sc.steps) {src dst : Value}
    (hstore : s.store? = some (src, dst)) :
    (sc.frame s.func).Modest src ∧ (sc.frame s.func).Modest dst := by
  obtain ⟨hf, b, hb, i, hi, hop⟩ := steps_store.mp ⟨s, hs, rfl, hstore⟩
  have hmem {v : Value} (hv : v ∈ i.op.operands) : v ∈ s.func.operands :=
    Func.mem_operands_of_inst hb hi hv
  rw [hop] at hmem
  exact ⟨hm.operands _ hf _ (hmem (by simp [Op.operands])),
    hm.operands _ hf _ (hmem (by simp [Op.operands]))⟩

theorem shows_of_global (hm : sc.module.Modest) {fact : Fact}
    (h : ∃ g ∈ sc.module.globals, fact ∈ sc.globalFacts g) : sc.Shows fact := by
  obtain ⟨g, hg, h⟩ := h
  obtain ⟨c, hc, htells⟩ := (mem_globalFacts (hm.globals g hg)).mp h
  cases htells with
  | taken hf => exact .taken (.initial hg hc) hf
  | evidence hst hd hf => exact .field (.initial hg hc) hst hd hf
  | published hvia hf =>
    split at hvia
    · cases hvia
    · next hlocal =>
      cases hvia
      exact .published (.initial hg (by simpa using hlocal) hc hf)

theorem shows_of_store (hm : sc.module.Modest) {before after : List Step} {s : Step}
    (hsteps : sc.steps = before ++ s :: after) {fact : Fact}
    (h : sc.StoreTells (sc.memoryAfter before .empty) s fact) : sc.Shows fact := by
  have hs : s ∈ sc.steps := by simp [hsteps]
  cases h with
  | evidence hstore hvalue hfield =>
    have hsrc := (store_modest hm hs hstore).1
    exact .stored ⟨before, s, after, _, _, hsteps, hstore, hsrc.leadsTo_iff.mpr hvalue, hfield⟩
  | published hstore hvalue haddr hexp =>
    obtain ⟨hsrc, hdst⟩ := store_modest hm hs hstore
    obtain ⟨hf, hstores⟩ := steps_store.mp ⟨s, hs, rfl, hstore⟩
    obtain ⟨n, hn, hpoints⟩ := (hm.baseGlobalWithin_iff hf hdst).mp haddr
    exact .published (.stored hf hstores (hsrc.leadsTo_iff.mpr hvalue) hn hpoints hexp)

theorem mem_found_of_step {s : Step} {before after : List Step}
    (hsteps : sc.steps = before ++ s :: after) {fact : Fact}
    (h : fact ∈ (sc.stepFacts s (sc.memoryAfter before .empty)).1.facts) : fact ∈ sc.found .empty :=
  List.mem_append_right _ (mem_factsAlong_iff.mpr ⟨before, s, after, hsteps, h⟩)

/-- What a constant that is taken up tells, whatever it belongs to, is found. -/
theorem mem_found_of_exposed (hm : sc.module.Modest) {c : Const} {how : Escapes}
    (hc : sc.module.Exposes c how) {fact : Fact} (h : ∀ via, c.Tells sc.view how via fact) :
    fact ∈ sc.found .empty := by
  cases hc with
  | @initial g _ hg hinit =>
    apply List.mem_append_left
    have hfact := (mem_globalFacts (hm.globals g hg)).mpr ⟨c, hinit, h _⟩
    exact List.mem_flatMap.mpr ⟨g, hg, hfact⟩
  | operand hf huse hleads =>
    obtain ⟨s, hs, rfl, hu⟩ := steps_uses.mpr ⟨hf, huse⟩
    obtain ⟨before, after, hsteps⟩ := List.append_of_mem hs
    apply mem_found_of_step hsteps
    rw [mem_stepFacts (h none).call?_eq_none]
    exact .inl ⟨_, hu, (mem_operandFacts (step_modest hm hs hu)).mpr ⟨c, hleads, h none⟩⟩

theorem mem_found_of_published (hm : sc.module.Modest) {f : Nat} {g : Global}
    (h : sc.module.Publishes f g) : .published f g.name ∈ sc.found .empty := by
  cases h with
  | @initial c hg hexp hinit hf =>
    apply List.mem_append_left
    refine List.mem_flatMap.mpr ⟨g, hg, ?_⟩
    exact (mem_globalFacts (hm.globals g hg)).mpr ⟨c, hinit, .published (by simp [hexp]) hf⟩
  | stored hf hstores hvalue hn hpoints hexp =>
    obtain ⟨s, hs, rfl, hstore⟩ := steps_store.mpr ⟨hf, hstores⟩
    obtain ⟨before, after, hsteps⟩ := List.append_of_mem hs
    obtain ⟨hsrc, hdst⟩ := store_modest hm hs hstore
    have haddr := (hm.baseGlobalWithin_iff hf hdst).mpr ⟨_, hn, hpoints⟩
    apply mem_found_of_step hsteps
    rw [mem_stepFacts rfl]
    exact .inr (.published hstore (hsrc.leadsTo_iff.mp hvalue) haddr hexp)

/-- A scan finds exactly what the module shows, calls apart. -/
theorem mem_found_iff (hm : sc.module.Modest) {fact : Fact} (hcall : fact.call? = none) :
    fact ∈ sc.found .empty ↔ sc.Shows fact := by
  constructor
  · intro h
    rcases List.mem_append.mp h with h | h
    · exact shows_of_global hm (List.mem_flatMap.mp h)
    · obtain ⟨before, s, after, hsteps, h⟩ := mem_factsAlong_iff.mp h
      have hs : s ∈ sc.steps := by simp [hsteps]
      rcases (mem_stepFacts hcall).mp h with ⟨u, hu, h⟩ | h
      · obtain ⟨c, hleads, htells⟩ := (mem_operandFacts (step_modest hm hs hu)).mp h
        obtain ⟨hf, hu⟩ := steps_uses.mp ⟨s, hs, rfl, hu⟩
        exact .of_tells (.operand hf hu hleads) htells
      · exact shows_of_store hm hsteps h
  · intro h
    cases h with
    | taken hc hf => exact mem_found_of_exposed hm hc fun via => .taken hf
    | field hc hst hd hf => exact mem_found_of_exposed hm hc fun via => .evidence hst hd hf
    | stored hstore =>
      obtain ⟨before, s, after, src, dst, hsteps, hstore, hvalue, hfield⟩ := hstore
      have hsrc := (store_modest hm (by simp [hsteps]) hstore).1
      apply mem_found_of_step hsteps
      rw [mem_stepFacts rfl]
      exact .inr (.evidence hstore (hsrc.leadsTo_iff.mp hvalue) hfield)
    | published hg => exact mem_found_of_published hm hg

end Scanner
end CallTargets
