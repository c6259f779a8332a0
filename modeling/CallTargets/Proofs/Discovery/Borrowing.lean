import CallTargets.Proofs.Discovery.Layouts

/-!
# Structs that borrow names

A struct written in place borrows the name that the table has for its shape. A scan describes only
structs that the module writes somewhere: in the types it uses, in the types that constant addresses
are computed through, and as types of constant structs. So two tables that give the same names to
the shapes written in place there lead to the same facts.
-/
namespace CallTargets

open IR

namespace IR

/-! ### Types that a module writes -/

def Const.structTypes (c : Const) : List Ty :=
  c.inside.filterMap fun
    | .struct t _ => some t
    | _ => none

def Value.structTypes : Value → List Ty
  | .const c => c.structTypes
  | _ => []

def Module.constantTypes (m : Module) : List Ty :=
  (m.globals.flatMap fun g => g.init.toList.flatMap Const.structTypes) ++
    m.funcs.flatMap fun f => f.operands.flatMap Value.structTypes

def Module.writtenTypes (m : Module) : List Ty :=
  m.usedTypes ++ m.laidOutTypes ++ m.constantTypes

def Module.writtenStructs (m : Module) : Set StructTy :=
  {st | st ∈ Ty.structsOf m.writtenTypes}

def Module.shapesInPlace (m : Module) : List String :=
  (Ty.structsOf m.writtenTypes).filterMap fun st =>
    match st.id with
    | .literal _ => some (m.typeDefs.shape st.fields)
    | .named _ => none

/-- A type is no struct written in place, or its shape is among those of the module. -/
def Module.Writes (m : Module) (t : Ty) : Prop :=
  ∀ n packed fields, m.typeDefs.expand t = .struct (.literal n) packed fields →
    m.typeDefs.shape fields ∈ m.shapesInPlace

namespace Module

variable {m : Module}

theorem covered_of_written {t : Ty} (h : t ∈ m.writtenTypes) : t.Covered m.writtenStructs := by
  intro st hst
  have hmem : st ∈ m.writtenTypes.flatMap Ty.structs := List.mem_flatMap.mpr ⟨t, h, hst⟩
  rwa [← Ty.structsOf_eq] at hmem

theorem closed_writtenStructs (m : Module) : m.typeDefs.Closed m.writtenStructs := by
  intro d hd
  apply covered_of_written
  simp only [writtenTypes, usedTypes, List.mem_append]
  exact .inl (.inl (.inl (.inl (List.mem_map_of_mem hd))))

theorem mem_shapesInPlace {st : StructTy} (hst : st ∈ m.writtenStructs) {n : Nat}
    (hid : st.id = .literal n) : m.typeDefs.shape st.fields ∈ m.shapesInPlace :=
  List.mem_filterMap.mpr ⟨st, hst, by rw [hid]⟩

theorem writes_of_written {t : Ty} (h : t ∈ m.writtenTypes) : m.Writes t := by
  intro n packed fields hexp
  have hcovered := (covered_of_written h).expand m.closed_writtenStructs
  rw [hexp] at hcovered
  exact mem_shapesInPlace (hcovered _ List.mem_cons_self) rfl

theorem writes_toTy {st : StructTy} (h : st ∈ m.writtenStructs) : m.Writes st.toTy := by
  intro n packed fields hexp
  unfold StructTy.toTy at hexp
  split at hexp
  · cases hexp
  · obtain ⟨hid, -, rfl⟩ := Ty.struct.inj hexp
    exact mem_shapesInPlace h hid

theorem structTypes_subset (m : Module) {st : StructTy} (h : st ∈ m.structTypes) :
    st ∈ m.writtenStructs := by
  obtain ⟨t, ht, hst⟩ := mem_structTypes.mp h
  exact covered_of_written (List.mem_append_left _ (List.mem_append_left _ ht)) st hst

end Module
end IR

/-- Tables that give the same names to the shapes written in place describe the types of a module
alike. -/
theorem TypeView.signature_eq_of_writes {names names' : StructNames} {m : Module}
    (h : ∀ shape ∈ m.shapesInPlace, names'.lookup shape = names.lookup shape) {t : Ty}
    (ht : m.Writes t) :
    (⟨names', m.typeDefs⟩ : TypeView).signature t =
      (⟨names, m.typeDefs⟩ : TypeView).signature t := by
  simp only [signature, Signature.ofType, describe, Option.bind_some]
  split
  · rfl
  · rfl
  · next n packed fields hexp => rw [h _ (ht n packed fields hexp)]
  · rfl

/-! ### Constants -/

namespace IR.Const

theorem inside_subset {c d : Const} (h : d ∈ c.parts) : d.inside ⊆ c.inside :=
  fun _ he => mem_inside_of_part h he

theorem structTypes_mono {c d : Const} (h : d.inside ⊆ c.inside) :
    d.structTypes ⊆ c.structTypes := by
  intro t ht
  obtain ⟨e, he, hsome⟩ := List.mem_filterMap.mp ht
  exact List.mem_filterMap.mpr ⟨e, h he, hsome⟩

theorem inside_cast {kind : Cast} (hkind : kind.isPointerCast = true) (c : Const) (t : Ty) :
    c.inside ⊆ (Const.cast kind c t).inside := by
  apply inside_subset
  cases kind with
  | numeric => cases hkind
  | _ => exact List.mem_singleton_self c

theorem inside_strip (n : Nat) (c : Const) : (c.strip n).inside ⊆ c.inside := by
  induction n generalizing c with
  | zero => cases c <;> exact List.Subset.refl _
  | succ n ih =>
    cases c with
    | cast kind src t =>
      rw [strip]
      split
      · next hkind => exact List.Subset.trans (ih src) (inside_cast hkind src t)
      · exact List.Subset.refl _
    | _ => exact List.Subset.refl _

theorem nodeFacts_congr {v v' : TypeView} {c : Const}
    (h : ∀ t ∈ c.structTypes, v'.signature t = v.signature t) (how : Escapes)
    (via : Option ByteString) : c.nodeFacts v' how via = c.nodeFacts v how via := by
  cases c with
  | struct t fields =>
    rw [nodeFacts, nodeFacts, h t]
    exact List.mem_filterMap.mpr ⟨.struct t fields, self_mem_inside _, rfl⟩
  | _ => rfl

end IR.Const

section

variable {v v' : TypeView}

theorem stackFacts_congr (how : Escapes) (via : Option ByteString) (n : Nat) {stack : List Const}
    (h : ∀ c ∈ stack, ∀ t ∈ c.structTypes, v'.signature t = v.signature t) :
    stackFacts v' how via n stack = stackFacts v how via n stack := by
  induction n generalizing stack with
  | zero => rfl
  | succ n ih =>
    cases stack with
    | nil => rfl
    | cons c stack =>
      obtain ⟨hc, hstack⟩ := List.forall_mem_cons.mp h
      have hstrip : ∀ t ∈ (c.strip maxCasts).structTypes, v'.signature t = v.signature t :=
        fun t ht => hc t (Const.structTypes_mono (Const.inside_strip _ c) ht)
      have hpushed : ∀ d ∈ (c.strip maxCasts).pushed ++ stack, ∀ t ∈ d.structTypes,
          v'.signature t = v.signature t := by
        intro d hd t ht
        rcases List.mem_append.mp hd with hd | hd
        · exact hstrip t (Const.structTypes_mono
            (Const.inside_subset (Const.pushed_subset_parts _ hd)) ht)
        · exact hstack d hd t ht
      rw [stackFacts_cons, stackFacts_cons, ih hpushed, Const.nodeFacts_congr hstrip]

theorem constantFacts_congr {c : Const}
    (h : ∀ t ∈ c.structTypes, v'.signature t = v.signature t) (how : Escapes)
    (via : Option ByteString) : constantFacts v' how via c = constantFacts v how via c := by
  have hstack : ∀ d ∈ [c], ∀ t ∈ d.structTypes, v'.signature t = v.signature t := by
    simpa using h
  exact stackFacts_congr how via _ hstack

end

namespace IR.Frame

variable {m : Module} {f : Func}

/-- Without its casts, an operand has only struct types that are written in the function. -/
theorem structTypes_strip {v : Value} (hv : v ∈ f.operands) :
    (Frame.strip ⟨m, some f⟩ v).structTypes ⊆ f.operands.flatMap Value.structTypes := by
  have hoperand {w : Value} (hw : w ∈ f.operands) :
      w.structTypes ⊆ f.operands.flatMap Value.structTypes :=
    fun t ht => List.mem_flatMap.mpr ⟨w, hw, ht⟩
  refine stripWithin_induction (P := fun w => w.structTypes ⊆ f.operands.flatMap
    Value.structTypes) ?_ (hoperand hv) _
  intro v w hw hsub
  obtain ⟨kind, c, t, hkind, rfl, rfl⟩ | hmem := uncast?_cases hw
  · exact List.Subset.trans (Const.structTypes_mono (Const.inside_cast hkind c t)) hsub
  · exact hoperand hmem

end IR.Frame

theorem operandFacts_congr {v v' : TypeView} {m : Module}
    (h : ∀ t ∈ m.constantTypes, v'.signature t = v.signature t) {f : Func} (hf : f ∈ m.funcs)
    {operand : Value} (hoperand : operand ∈ f.operands) (how : Escapes) :
    operandFacts v' ⟨m, some f⟩ how operand = operandFacts v ⟨m, some f⟩ how operand := by
  have hstrip : ∀ t ∈ (Frame.strip ⟨m, some f⟩ operand).structTypes,
      v'.signature t = v.signature t := by
    intro t ht
    apply h
    exact List.mem_append_right _
      (List.mem_flatMap.mpr ⟨f, hf, Frame.structTypes_strip hoperand ht⟩)
  unfold operandFacts
  split
  · rfl
  · rfl
  · next c _ _ hc =>
    rw [hc] at hstrip
    exact constantFacts_congr hstrip how none
  · rfl

/-! ### Addresses -/

namespace Layout

variable {l : Layout} {m : Module} {f : Func}

/-- Folding address computations ends at a type of the function. -/
theorem foldGeps_laidOut {n : Nat} {g : Gep} (helem : g.elem ∈ f.laidOutTypes)
    (hsrc : Frame.Traced f g.src) (before : Int64) :
    Yields (l.foldGeps ⟨m, some f⟩ n g before) fun r => ∀ x ∈ r, x.1 ∈ f.laidOutTypes := by
  have hend {total : Int64} : Yields (Pure.pure (some (g.elem, total)))
      fun r => ∀ x ∈ r, x.1 ∈ f.laidOutTypes := .pure (by simpa using helem)
  induction n generalizing g before with
  | zero =>
    rw [foldGeps]
    refine .bind_any fun offset => ?_
    cases offset with
    | none => exact .pure (by simp)
    | some offset => exact hend
  | succ n ih =>
    rw [foldGeps]
    refine .bind_any fun offset => ?_
    cases offset with
    | none => exact .pure (by simp)
    | some offset =>
      dsimp only
      split
      · next c hc =>
        split
        · next inner hinner =>
          have htraced : Frame.Traced f (.const c) := by
            rw [← hc]
            exact hsrc.stripWithin _
          obtain ⟨helem', hsrc'⟩ := htraced.gep (m := m) hinner
          exact ih helem' hsrc' _ (.pure (by simpa using helem'))
        · exact hend
      · exact hend

/-- Every address of a function leads to a field of a struct that the module writes. -/
theorem resolve_written (hdefs : l.defs = m.typeDefs) (hf : f ∈ m.funcs) {addr : Value}
    (haddr : addr ∈ f.operands) :
    Yields (l.resolve ⟨m, some f⟩ addr) (OwnedBy m.writtenStructs) := by
  have hS : l.defs.Closed m.writtenStructs := by
    rw [hdefs]
    exact m.closed_writtenStructs
  have hcovered : ∀ t ∈ m.laidOutTypes, t.Covered m.writtenStructs := fun t ht =>
    Module.covered_of_written (List.mem_append_left _ (List.mem_append_right _ ht))
  have hfunc : ∀ t ∈ f.laidOutTypes, t.Covered m.writtenStructs := fun t ht =>
    hcovered t (List.mem_append_right _ (List.mem_flatMap.mpr ⟨f, hf, ht⟩))
  have htraced : Frame.Traced f (Frame.strip ⟨m, some f⟩ addr) :=
    (Frame.traced_of_operand haddr).stripWithin _
  unfold resolve
  dsimp only
  split
  · next g hg =>
    obtain ⟨helem, hsrc⟩ := htraced.gep hg
    rw [gepOffset, hg]
    refine (foldGeps_laidOut helem hsrc 0).bind fun r hr => ?_
    cases r with
    | none => exact .pure (ownedBy_none _)
    | some x => exact fieldAt_ownedBy hS (hfunc _ (hr x rfl)) _
  · split
    · next g hg =>
      apply fieldAt_ownedBy hS
      exact hcovered _ (List.mem_append_left _ (List.mem_map_of_mem (Frame.global?_mem hg)))
    · split
      · next hop => exact fieldAt_ownedBy hS (hfunc _ (Frame.memoryType_of_inst? hop rfl)) _
      · exact .pure (ownedBy_none _)

end Layout
end CallTargets
