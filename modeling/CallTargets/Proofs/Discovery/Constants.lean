import CallTargets.CallGraph.Fact
import Mathlib.Tactic

/-!
# What constants hold

Addresses are followed into a constant through casts, the members of aggregates, numbers made of
addresses, the sources of address computations and the arms of choices. The constants met on the way
are listed here by recursion on the constant. The walk that looks for functions goes by a stack and
visits a limited number of nodes. The main statement is that within its limits the walk tells
exactly what the listing tells: every function inside the constant, and for every struct inside it
the functions that stand directly in a field.
-/
namespace CallTargets

namespace IR.Const

/-! ### Casts -/

def bare : Const → Const
  | .cast kind c t => if kind.isPointerCast then c.bare else .cast kind c t
  | c => c

def casts : Const → Nat
  | .cast kind c _ => if kind.isPointerCast then c.casts + 1 else 0
  | _ => 0

theorem strip_eq_bare {c : Const} {n : Nat} (h : c.casts ≤ n) : c.strip n = c.bare := by
  induction n generalizing c with
  | zero =>
    cases c with
    | cast kind src t =>
      by_cases hkind : kind.isPointerCast
      · simp [casts, hkind] at h
      · simp [strip, bare, hkind]
    | _ => rfl
  | succ n ih =>
    cases c with
    | cast kind src t =>
      by_cases hkind : kind.isPointerCast
      · simp only [casts, hkind, if_true, Nat.add_le_add_iff_right] at h
        simpa [strip, bare, hkind] using ih h
      · simp [strip, bare, hkind]
    | _ => rfl

theorem casts_bare (c : Const) : c.bare.casts = 0 := by
  fun_induction bare c with
  | case1 kind c t hkind ih => exact ih
  | case2 kind c t hkind => simp [casts, hkind]
  | case3 c hc =>
    cases c with
    | cast kind src t => exact absurd rfl (hc kind src t)
    | _ => rfl

/-! ### Constants inside constants -/

mutual

/-- A constant and all constants inside it that addresses are followed to. -/
def inside : Const → List Const
  | .struct t fields => .struct t fields :: insideAll fields
  | .array t elems => .array t elems :: insideAll elems
  | .vector t elems => .vector t elems :: insideAll elems
  | .cast kind src t => .cast kind src t :: if kind = .numeric then [] else inside src
  | .gep elem src indices => .gep elem src indices :: inside src
  | .select cond x y => .select cond x y :: (inside x ++ inside y)
  | c => [c]

def insideAll : List Const → List Const
  | [] => []
  | c :: cs => inside c ++ insideAll cs

end

mutual

/-- The number of nodes of a constant that are visited. Casts are looked through, and functions that
are fields of a struct are seen with the struct. -/
def walked : Const → Nat
  | .struct _ fields => walkedFields fields + 1
  | .array _ elems => walkedAll elems + 1
  | .vector _ elems => walkedAll elems + 1
  | .cast kind src _ =>
    if kind.isPointerCast then walked src else if kind = .numeric then 1 else walked src + 1
  | .gep _ src _ => walked src + 1
  | .select _ x y => walked x + walked y + 1
  | _ => 1

def walkedAll : List Const → Nat
  | [] => 0
  | c :: cs => walked c + walkedAll cs

def walkedFields : List Const → Nat
  | [] => 0
  | c :: cs => (if c.isFunc then 0 else walked c) + walkedFields cs

end

/-- The constants that a constant is made of and that addresses are followed to. -/
def parts : Const → List Const
  | .struct _ fields => fields
  | .array _ elems | .vector _ elems => elems
  | .cast kind src _ => if kind = .numeric then [] else [src]
  | .gep _ src _ => [src]
  | .select _ x y => [x, y]
  | _ => []

theorem insideAll_eq (cs : List Const) : insideAll cs = cs.flatMap inside := by
  induction cs with
  | nil => rfl
  | cons c cs ih => rw [insideAll, ih, List.flatMap_cons]

theorem inside_eq (c : Const) : c.inside = c :: c.parts.flatMap inside := by
  cases c with
  | cast kind src t => by_cases hkind : kind = .numeric <;> simp [inside, parts, hkind]
  | _ => simp [inside, parts, insideAll_eq]

theorem self_mem_inside (c : Const) : c ∈ c.inside := by
  rw [inside_eq]
  exact List.mem_cons_self

theorem mem_inside_of_part {c d e : Const} (hd : d ∈ c.parts) (he : e ∈ d.inside) :
    e ∈ c.inside := by
  rw [inside_eq]
  exact List.mem_cons_of_mem c (List.mem_flatMap.mpr ⟨d, hd, he⟩)

/-- Casts hide nothing of what is inside. -/
theorem mem_inside_bare {c d : Const} (hd : d.casts = 0) : d ∈ c.bare.inside ↔ d ∈ c.inside := by
  fun_induction bare c with
  | case1 kind c t hkind ih =>
    have hnum : kind ≠ .numeric := by
      rintro rfl
      cases hkind
    have hne : d ≠ .cast kind c t := by
      rintro rfl
      simp [casts, hkind] at hd
    rw [ih, inside]
    simp [hnum, hne]
  | case2 => rfl
  | case3 => rfl

theorem walked_bare (c : Const) : c.bare.walked = c.walked := by
  fun_induction bare c with
  | case1 kind c t hkind ih => rw [ih, walked, if_pos hkind]
  | case2 => rfl
  | case3 => rfl

theorem walkedAll_append (cs ds : List Const) :
    walkedAll (cs ++ ds) = walkedAll cs + walkedAll ds := by
  induction cs with
  | nil => simp [walkedAll]
  | cons c cs ih => simp only [List.cons_append, walkedAll, ih, Nat.add_assoc]

theorem walkedAll_reverse (cs : List Const) : walkedAll cs.reverse = walkedAll cs := by
  induction cs with
  | nil => rfl
  | cons c cs ih =>
    simp only [List.reverse_cons, walkedAll_append, ih, walkedAll]
    omega

theorem walkedFields_eq (cs : List Const) :
    walkedFields cs = walkedAll (cs.filter fun c => !c.isFunc) := by
  induction cs with
  | nil => rfl
  | cons c cs ih => cases h : c.isFunc <;> simp [walkedFields, walkedAll, ih, h]

/-- The casts in front of a constant, and of every constant inside it, are all looked through. -/
def ShortCasts (c : Const) : Prop := ∀ d ∈ c.inside, d.casts ≤ maxCasts

instance (c : Const) : Decidable c.ShortCasts :=
  inferInstanceAs (Decidable (∀ d ∈ c.inside, d.casts ≤ maxCasts))

theorem ShortCasts.strip_eq {c : Const} (h : c.ShortCasts) : c.strip maxCasts = c.bare :=
  strip_eq_bare (h c c.self_mem_inside)

theorem ShortCasts.part {c d : Const} (h : c.ShortCasts) (hd : d ∈ c.parts) : d.ShortCasts :=
  fun e he => h e (mem_inside_of_part hd he)

theorem ShortCasts.bare {c : Const} (h : c.ShortCasts) : c.bare.ShortCasts := by
  fun_induction Const.bare c with
  | case1 kind c t hkind ih =>
    apply ih
    apply h.part
    cases kind <;> simp_all [parts, Cast.isPointerCast]
  | case2 => exact h
  | case3 => exact h

end IR.Const

open IR

/-! ### What a constant tells -/

/-- What a constant tells of functions: those inside it are taken, and published if it belongs to an
exported global; one that stands in a field of a struct inside it is recorded for the field. -/
inductive IR.Const.Tells (v : TypeView) (how : Escapes) (via : Option ByteString) (c : Const) :
    Fact → Prop
  | taken {f : Nat} (func : .func f ∈ c.inside) : Tells v how via c (.taken f how)
  | published {f : Nat} {g : ByteString} (exported : via = some g) (func : .func f ∈ c.inside) :
      Tells v how via c (.published f g)
  | evidence {f : Nat} {t : Ty} {fields : List Const} {i : Nat} {d : Const}
      (struct : .struct t fields ∈ c.inside) (field : fields[i]? = some d)
      (func : d.bare = .func f) : Tells v how via c (.evidence f (v.signature t) i)

namespace IR.Const

variable {v : TypeView} {how : Escapes} {via : Option ByteString} {fact : Fact}

theorem Tells.mono {c c' : Const} (h : c.Tells v how via fact)
    (hsub : ∀ d, d.casts = 0 → d ∈ c.inside → d ∈ c'.inside) : c'.Tells v how via fact := by
  cases h with
  | taken hf => exact .taken (hsub _ rfl hf)
  | published hvia hf => exact .published hvia (hsub _ rfl hf)
  | evidence hstruct hd hf => exact .evidence (hsub _ rfl hstruct) hd hf

theorem tells_bare (c : Const) : c.bare.Tells v how via fact ↔ c.Tells v how via fact :=
  ⟨fun h => h.mono fun _ hd => (mem_inside_bare hd).mp,
    fun h => h.mono fun _ hd => (mem_inside_bare hd).mpr⟩

theorem tells_func (f : Nat) :
    (Const.func f).Tells v how via fact ↔ fact ∈ foundFunc how via f := by
  constructor
  · rintro (h | ⟨rfl, h⟩ | ⟨h, -, -⟩)
    · simp only [inside, List.mem_singleton, Const.func.injEq] at h
      simp [foundFunc, h]
    · simp only [inside, List.mem_singleton, Const.func.injEq] at h
      simp [foundFunc, h]
    · simp [inside] at h
  · intro h
    rcases List.mem_cons.mp h with rfl | h
    · exact .taken (by simp [inside])
    · cases via with
      | none => cases h
      | some g =>
        rw [List.mem_singleton.mp h]
        exact .published rfl (by simp [inside])

/-- A constant that is no function tells what the constants in it tell, and a struct also for which
field it is. -/
theorem tells_of_not_func {c : Const} (hfunc : ∀ f, c ≠ .func f) :
    c.Tells v how via fact ↔ (∃ d ∈ c.parts, d.Tells v how via fact) ∨
      ∃ t fields i d f, c = .struct t fields ∧ fields[i]? = some d ∧ d.bare = .func f ∧
        fact = .evidence f (v.signature t) i := by
  have hmem {d : Const} (h : d ∈ c.inside) : d = c ∨ ∃ e ∈ c.parts, d ∈ e.inside := by
    rwa [inside_eq, List.mem_cons, List.mem_flatMap] at h
  constructor
  · intro h
    cases h with
    | taken hf =>
      obtain ⟨e, he, hf⟩ := (hmem hf).resolve_left (hfunc _).symm
      exact .inl ⟨e, he, .taken hf⟩
    | published hvia hf =>
      obtain ⟨e, he, hf⟩ := (hmem hf).resolve_left (hfunc _).symm
      exact .inl ⟨e, he, .published hvia hf⟩
    | evidence hst hd hf =>
      rcases hmem hst with hst | ⟨e, he, hst⟩
      · exact .inr ⟨_, _, _, _, _, hst.symm, hd, hf, rfl⟩
      · exact .inl ⟨e, he, .evidence hst hd hf⟩
  · rintro (⟨e, he, h⟩ | ⟨t, fields, i, d, f, rfl, hd, hf, rfl⟩)
    · exact h.mono fun d _ hd => mem_inside_of_part he hd
    · exact .evidence (self_mem_inside _) hd hf

end IR.Const

/-! ### The walk -/

namespace IR.Const

def nodeFacts (v : TypeView) (how : Escapes) (via : Option ByteString) : Const → List Fact
  | .func f => foundFunc how via f
  | .struct t fields => fieldFacts how via (v.signature t) 0 fields
  | _ => []

/-- The nodes that a walk puts on the stack for a node, the next one first. -/
def pushed : Const → List Const
  | .struct _ fields => (fields.filter fun c => !c.isFunc).reverse
  | .array _ elems | .vector _ elems => elems.reverse
  | .cast .ptrToInt src _ | .cast .intToPtr src _ => [src]
  | .gep _ src _ => [src]
  | .select _ x y => [y, x]
  | _ => []

theorem pushed_subset_parts (c : Const) : c.pushed ⊆ c.parts := by
  intro d hd
  cases c with
  | struct t fields => exact (List.mem_filter.mp (List.mem_reverse.mp hd)).1
  | array t elems => exact List.mem_reverse.mp hd
  | vector t elems => exact List.mem_reverse.mp hd
  | cast kind src t => cases kind <;> simp_all [pushed, parts]
  | gep elem src indices => exact hd
  | select cond x y => simpa [pushed, parts, or_comm] using hd
  | _ => cases hd

/-- A node counts once, beside the nodes that are put on the stack for it. -/
theorem walkedAll_pushed {c : Const} (hc : c.casts = 0) : walkedAll c.pushed + 1 = c.walked := by
  cases c with
  | struct t fields => simp [pushed, walked, walkedAll_reverse, walkedFields_eq]
  | array t elems => simp [pushed, walked, walkedAll_reverse]
  | vector t elems => simp [pushed, walked, walkedAll_reverse]
  | cast kind src t =>
    cases kind <;> simp_all [pushed, walked, walkedAll, casts, Cast.isPointerCast]
  | gep elem src indices => simp [pushed, walked, walkedAll]
  | select cond x y =>
    simp only [pushed, walked, walkedAll]
    omega
  | _ => rfl

end IR.Const

theorem stackFacts_cons (v : TypeView) (how : Escapes) (via : Option ByteString) (n : Nat)
    (c : Const) (stack : List Const) :
    stackFacts v how via (n + 1) (c :: stack) =
      (c.strip maxCasts).nodeFacts v how via ++
        stackFacts v how via n ((c.strip maxCasts).pushed ++ stack) := by
  rw [stackFacts]
  cases c.strip maxCasts with
  | cast kind src t => cases kind <;> rfl
  | _ => rfl

theorem mem_fieldFacts {how : Escapes} {via : Option ByteString} {owner : Signature} {start : Nat}
    {fields : List Const} {fact : Fact} :
    fact ∈ fieldFacts how via owner start fields ↔
      ∃ x ∈ fields.zipIdx start, ∃ f, x.1.strip maxCasts = .func f ∧
        (fact ∈ foundFunc how via f ∨ fact = .evidence f owner x.2) := by
  induction fields generalizing start with
  | nil => simp [fieldFacts]
  | cons c fields ih =>
    rw [fieldFacts, List.zipIdx_cons]
    simp only [List.mem_cons, exists_eq_or_imp, ← ih]
    split
    · next f hf => simp [hf, or_assoc]
    · next hne =>
      refine (or_iff_right ?_).symm
      rintro ⟨f, hf, -⟩
      exact hne f hf

namespace IR.Const

variable {v : TypeView} {how : Escapes} {via : Option ByteString} {fact : Fact}

/-- A field that is a function tells what was found when the struct was looked at. -/
theorem tells_struct {t : Ty} {fields : List Const} (hshort : ∀ d ∈ fields, d.ShortCasts) :
    (Const.struct t fields).Tells v how via fact ↔
      fact ∈ fieldFacts how via (v.signature t) 0 fields ∨
        ∃ d ∈ fields.filter fun c => !c.isFunc, d.Tells v how via fact := by
  have hstrip {d : Const} (hd : d ∈ fields) : d.strip maxCasts = d.bare := (hshort d hd).strip_eq
  rw [tells_of_not_func (by simp), mem_fieldFacts]
  constructor
  · rintro (⟨d, hd, h⟩ | ⟨t', fields', i, d, f, heq, hi, hf, rfl⟩)
    · cases hfunc : d.isFunc with
      | true =>
        obtain ⟨f, hf⟩ : ∃ f, d.bare = .func f := by
          rw [isFunc, hstrip hd] at hfunc
          cases hbare : d.bare <;> simp_all
        obtain ⟨i, hi⟩ := List.mem_iff_getElem?.mp hd
        rw [← tells_bare, hf, tells_func] at h
        exact .inl ⟨(d, i), List.mk_mem_zipIdx_iff_getElem?.mpr hi, f, (hstrip hd).trans hf, .inl h⟩
      | false => exact .inr ⟨d, List.mem_filter.mpr ⟨hd, by simp [hfunc]⟩, h⟩
    · cases heq
      have hd := List.mem_of_getElem? hi
      exact .inl ⟨(d, i), List.mk_mem_zipIdx_iff_getElem?.mpr hi, f, (hstrip hd).trans hf, .inr rfl⟩
  · rintro (⟨⟨d, i⟩, hi, f, hf, h⟩ | ⟨d, hd, h⟩)
    · have hi := List.mk_mem_zipIdx_iff_getElem?.mp hi
      have hd := List.mem_of_getElem? hi
      rw [hstrip hd] at hf
      rcases h with h | rfl
      · refine .inl ⟨d, hd, ?_⟩
        rwa [← tells_bare, hf, tells_func]
      · exact .inr ⟨t, fields, i, d, f, rfl, hi, hf, rfl⟩
    · exact .inl ⟨d, (List.mem_filter.mp hd).1, h⟩

/-- A node tells what is found at it and what the nodes put on the stack for it tell. -/
theorem tells_node {c : Const} (hc : c.casts = 0) (hshort : c.ShortCasts) :
    c.Tells v how via fact ↔
      fact ∈ c.nodeFacts v how via ∨ ∃ d ∈ c.pushed, d.Tells v how via fact := by
  cases c with
  | func f => simp [nodeFacts, pushed, tells_func]
  | struct t fields =>
    have hfields : ∀ d ∈ fields, d.ShortCasts := fun d hd => hshort.part hd
    rw [tells_struct hfields]
    simp [nodeFacts, pushed]
  | cast kind src t =>
    rw [tells_of_not_func (by simp)]
    cases kind <;> simp_all [nodeFacts, pushed, parts, casts, Cast.isPointerCast]
  | _ =>
    rw [tells_of_not_func (by simp)]
    simp [nodeFacts, pushed, parts, or_comm]

end IR.Const

open IR.Const

/-- A walk that may visit all nodes on the stack tells exactly what they tell. -/
theorem mem_stackFacts {v : TypeView} {how : Escapes} {via : Option ByteString} {n : Nat}
    {stack : List Const} (hshort : ∀ c ∈ stack, c.ShortCasts) (hn : walkedAll stack ≤ n)
    {fact : Fact} :
    fact ∈ stackFacts v how via n stack ↔ ∃ c ∈ stack, c.Tells v how via fact := by
  induction n generalizing stack with
  | zero =>
    cases stack with
    | nil => simp [stackFacts]
    | cons c stack =>
      have hpos := walkedAll_pushed c.casts_bare
      rw [walked_bare] at hpos
      simp only [walkedAll] at hn
      omega
  | succ n ih =>
    cases stack with
    | nil => simp [stackFacts]
    | cons c stack =>
      have hc := hshort c List.mem_cons_self
      have hcount : walkedAll (c.bare.pushed ++ stack) ≤ n := by
        have hnode := walkedAll_pushed c.casts_bare
        rw [walked_bare] at hnode
        simp only [walkedAll] at hn
        rw [walkedAll_append]
        omega
      have hshort' : ∀ d ∈ c.bare.pushed ++ stack, d.ShortCasts := by
        intro d hd
        rcases List.mem_append.mp hd with hd | hd
        · exact hc.bare.part (c.bare.pushed_subset_parts hd)
        · exact hshort d (List.mem_cons_of_mem c hd)
      rw [stackFacts_cons, hc.strip_eq, List.mem_append, ih hshort' hcount]
      simp only [List.mem_append, List.mem_cons, or_and_right, exists_or, exists_eq_left]
      rw [← or_assoc, ← tells_node c.casts_bare hc.bare, tells_bare]

structure IR.Const.Modest (c : Const) : Prop where
  short : c.ShortCasts
  small : c.walked ≤ maxConstantNodes

instance (c : Const) : Decidable c.Modest :=
  decidable_of_iff (c.ShortCasts ∧ c.walked ≤ maxConstantNodes)
    ⟨fun h => ⟨h.1, h.2⟩, fun h => ⟨h.short, h.small⟩⟩

theorem mem_constantFacts {v : TypeView} {how : Escapes} {via : Option ByteString} {c : Const}
    (hc : c.Modest) {fact : Fact} :
    fact ∈ constantFacts v how via c ↔ c.Tells v how via fact := by
  have hsmall : walkedAll [c] ≤ maxConstantNodes := by
    simpa [walkedAll] using hc.small
  rw [constantFacts, mem_stackFacts (by simpa using hc.short) hsmall]
  simp

end CallTargets
