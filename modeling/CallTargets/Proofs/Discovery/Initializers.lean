import CallTargets.Proofs.Discovery.Findings
import CallTargets.Proofs.Discovery.Layouts
import CallTargets.Proofs.Layout.Paths

/-!
# Initial values and stores

A function gets into a field in two ways: a global has it there from the start, or it is stored
there. An initial value is walked as a tree of constants, while the address of a store is turned
into an offset and back into a field. Here the two are compared along the paths through an initial
value. The address that a path selects designates the innermost field on the path, and the walk
records a function for just that field if the path ends in a field of a struct. A function that is
an element of an array inside a struct is not recorded at all, although a store to the same address
is.
-/
namespace CallTargets

open IR

/-! ### Spellings -/

mutual

/-- A type with all occurrence numbers of structs written in place forgotten. -/
def IR.Ty.unnumbered : Ty → Ty
  | .ptr space e => .ptr space e.unnumbered
  | .array len e => .array len e.unnumbered
  | .vector scalable len e => .vector scalable len e.unnumbered
  | .func r ps variadic => .func r.unnumbered (Ty.unnumberedAll ps) variadic
  | .struct (.literal _) packed fields => .struct (.literal 0) packed (Ty.unnumberedAll fields)
  | .struct (.named n) packed fields => .struct (.named n) packed (Ty.unnumberedAll fields)
  | t => t

def IR.Ty.unnumberedAll : List Ty → List Ty
  | [] => []
  | t :: ts => t.unnumbered :: Ty.unnumberedAll ts

end

namespace IR.Ty

mutual

theorem text_unnumbered (t : Ty) : t.unnumbered.text = t.text := by
  cases t with
  | ptr space e => simp only [unnumbered, text, text_unnumbered e]
  | array len e => simp only [unnumbered, text, text_unnumbered e]
  | vector scalable len e => simp only [unnumbered, text, text_unnumbered e]
  | func r ps variadic => simp only [unnumbered, text, text_unnumbered r, texts_unnumberedAll ps]
  | struct id packed fields =>
    cases id with
    | named n => simp only [unnumbered, text]
    | literal n => simp only [unnumbered, text, texts_unnumberedAll fields]
  | _ => rfl

theorem texts_unnumberedAll (ts : List Ty) : texts (unnumberedAll ts) = texts ts := by
  cases ts with
  | nil => rfl
  | cons t ts => simp only [unnumberedAll, texts, text_unnumbered t, texts_unnumberedAll ts]

end

theorem kind_unnumbered (defs : TypeDefs) (t : Ty) : defs.kind t.unnumbered = defs.kind t := by
  cases t with
  | struct id packed fields => cases id <;> rfl
  | _ => rfl

theorem shape_unnumberedAll (defs : TypeDefs) (ts : List Ty) :
    defs.shape (unnumberedAll ts) = defs.shape ts := by
  unfold TypeDefs.shape
  congr 1
  induction ts with
  | nil => rfl
  | cons t ts ih => simp only [unnumberedAll, List.map_cons, kind_unnumbered, ih]

theorem describe_unnumbered (table : Option StructNames) (defs : TypeDefs) (t : Ty) :
    describe table defs t.unnumbered = describe table defs t := by
  have hplain := congrArg (fun s => ByteString.ofText (Signature.clean s)) t.text_unnumbered
  cases t with
  | struct id packed fields =>
    cases id with
    | named n => rfl
    | literal n =>
      simp only [describe, unnumbered, TypeDefs.expand, shape_unnumberedAll, definition,
        texts_unnumberedAll]
  | named n => rfl
  | incomplete n => rfl
  | _ => exact hplain

end IR.Ty

theorem describe_toTy {table : Option StructNames} {defs : TypeDefs} {t : Ty} {st : StructTy}
    (h : defs.struct? t = some st) : describe table defs st.toTy = describe table defs t := by
  unfold TypeDefs.struct? Ty.struct? at h
  split at h
  · next id packed fields heq =>
    cases h
    rw [describe, describe, heq]
    cases id <;> rfl
  · next n heq =>
    cases h
    rw [describe, describe, heq]
    rfl
  · cases h

theorem TypeView.signature_eq {v : TypeView} {t u : Ty} {st : StructTy}
    (hu : u.unnumbered = t.unnumbered) (hst : v.defs.struct? t = some st) :
    v.signature u = v.signature st.toTy := by
  have hdesc : describe (some v.names) v.defs u = describe (some v.names) v.defs st.toTy := by
    rw [describe_toTy hst, ← u.describe_unnumbered, hu, t.describe_unnumbered]
  exact congrArg Signature.ofText hdesc

/-! ### Paths through constants -/

namespace IR.Const

def members : Const → List Const
  | .struct _ fields => fields
  | .array _ elems => elems
  | _ => []

def at? : Const → List Nat → Option Const
  | c, [] => some c
  | c, i :: is => c.members[i]?.bind fun d => d.at? is

theorem at?_append (c : Const) (p q : List Nat) :
    c.at? (p ++ q) = (c.at? p).bind fun d => d.at? q := by
  induction p generalizing c with
  | nil => rfl
  | cons i is ih =>
    rw [List.cons_append, at?, at?]
    cases c.members[i]? with
    | none => rfl
    | some d => exact ih d

theorem at?_cons_eq_some {c e : Const} {i : Nat} {is : List Nat} :
    c.at? (i :: is) = some e ↔ ∃ d, c.members[i]? = some d ∧ d.at? is = some e := by
  rw [at?, Option.bind_eq_some_iff]

theorem at?_field {c : Const} {p : List Nat} {t : Ty} {fields : List Const}
    (h : c.at? p = some (.struct t fields)) (i : Nat) : c.at? (p ++ [i]) = fields[i]? := by
  rw [at?_append, h, Option.bind_some, at?, members]
  cases fields[i]? <;> rfl

theorem members_subset_parts (c : Const) : c.members ⊆ c.parts := by
  cases c with
  | struct t fields => exact List.Subset.refl fields
  | array t elems => exact List.Subset.refl elems
  | _ => exact List.nil_subset _

theorem mem_inside_of_at? {c d : Const} {p : List Nat} (h : c.at? p = some d) : d ∈ c.inside := by
  induction p generalizing c with
  | nil =>
    cases h
    exact self_mem_inside d
  | cons i is ih =>
    obtain ⟨e, he, hd⟩ := at?_cons_eq_some.mp h
    exact mem_inside_of_part (c.members_subset_parts (List.mem_of_getElem? he)) (ih hd)

theorem length_members_lt (c : Const) : c.members.length < c.inside.length := by
  have hcount (cs : List Const) : cs.length ≤ (insideAll cs).length := by
    induction cs with
    | nil => exact Nat.le_refl _
    | cons c cs ih =>
      rw [insideAll, inside_eq, List.length_append, List.length_cons, List.length_cons]
      omega
  cases c with
  | struct t fields => exact Nat.lt_succ_of_le (hcount fields)
  | array t elems => exact Nat.lt_succ_of_le (hcount elems)
  | _ =>
    rw [inside_eq]
    exact Nat.succ_pos _

theorem length_inside_le_of_part {c d : Const} (h : d ∈ c.parts) :
    d.inside.length ≤ c.inside.length := by
  rw [c.inside_eq, List.length_cons, List.length_flatMap]
  have hle : d.inside.length ≤ (c.parts.map fun e => e.inside.length).sum :=
    List.le_sum_of_mem (List.mem_map_of_mem h)
  omega

theorem lt_of_at? {c d : Const} {p : List Nat} (h : c.at? p = some d) :
    ∀ i ∈ p, i < c.inside.length := by
  induction p generalizing c with
  | nil => simp
  | cons j is ih =>
    obtain ⟨e, he, hd⟩ := at?_cons_eq_some.mp h
    intro i hi
    rcases List.mem_cons.mp hi with rfl | hi
    · exact lt_trans (List.getElem?_eq_some_iff.mp he).1 c.length_members_lt
    · have hpart := c.members_subset_parts (List.mem_of_getElem? he)
      exact lt_of_lt_of_le (ih hd i hi) (length_inside_le_of_part hpart)

mutual

/-- A walk visits no more nodes than there are. -/
theorem walked_le (c : Const) : c.walked ≤ c.inside.length := by
  cases c with
  | struct t fields =>
    have h := walkedFields_le fields
    simpa [walked, inside] using h
  | array t elems =>
    have h := walkedAll_le elems
    simpa [walked, inside] using h
  | vector t elems =>
    have h := walkedAll_le elems
    simpa [walked, inside] using h
  | cast kind src t =>
    have h := walked_le src
    cases kind <;> simp [walked, inside, Cast.isPointerCast] <;> omega
  | gep elem src indices =>
    have h := walked_le src
    simpa [walked, inside] using h
  | select cond x y =>
    have hx := walked_le x
    have hy := walked_le y
    simp only [walked, inside, List.length_cons, List.length_append]
    omega
  | _ => exact Nat.le_refl 1

theorem walkedAll_le (cs : List Const) : walkedAll cs ≤ (insideAll cs).length := by
  cases cs with
  | nil => exact Nat.le_refl 0
  | cons c cs =>
    have hc := walked_le c
    have hcs := walkedAll_le cs
    rw [walkedAll, insideAll, List.length_append]
    omega

theorem walkedFields_le (cs : List Const) : walkedFields cs ≤ (insideAll cs).length := by
  cases cs with
  | nil => exact Nat.le_refl 0
  | cons c cs =>
    have hc := walked_le c
    have hcs := walkedFields_le cs
    rw [walkedFields, insideAll, List.length_append]
    split <;> omega

end

def EndsInField (c : Const) (p : List Nat) : Prop :=
  ∃ before i t fields, p = before ++ [i] ∧ c.at? before = some (.struct t fields)

/-! ### Constants of a type -/

/-- A constant is one of a type: its structs and arrays are those of the type, with types written
the same way, no struct stands elsewhere in it, and functions stand where pointers belong. -/
inductive Fills (defs : TypeDefs) : Const → Ty → Prop
  | struct {u t : Ty} {id : StructId} {packed : Bool} {types : List Ty} {cs : List Const}
      (written : u.unnumbered = t.unnumbered) (type : defs.expand t = .struct id packed types)
      (length : cs.length = types.length)
      (fields : ∀ (i : Nat) c type, cs[i]? = some c → types[i]? = some type → Fills defs c type) :
      Fills defs (.struct u cs) t
  | array {u t : Ty} {len : UInt64} {e : Ty} {cs : List Const}
      (type : defs.expand t = .array len e) (length : cs.length = len.toNat)
      (elems : ∀ c ∈ cs, Fills defs c e) : Fills defs (.array u cs) t
  | scalar {c : Const} {t : Ty} (alone : c.members = [])
      (structs : ∀ u fields, .struct u fields ∉ c.inside)
      (pointer : ∀ f, c.bare = .func f → ∃ space e, defs.expand t = .ptr space e) :
      Fills defs c t

namespace Fills

variable {defs : TypeDefs} {c d : Const} {t : Ty} {p : List Nat}

/-- What a path leads to is of the type that the path leads to. -/
theorem at? (h : c.Fills defs t) (hd : c.at? p = some d) :
    ∃ u, defs.member? t p = some u ∧ d.Fills defs u := by
  induction p generalizing c t with
  | nil =>
    cases hd
    exact ⟨t, rfl, h⟩
  | cons i is ih =>
    obtain ⟨e, he, hrest⟩ := at?_cons_eq_some.mp hd
    cases h with
    | struct written type length fields =>
      have hlt := length ▸ (List.getElem?_eq_some_iff.mp he).1
      have hu := List.getElem?_eq_getElem hlt
      obtain ⟨u, hmem, hu⟩ := ih (fields i e _ he hu) hrest
      exact ⟨u, by simpa [TypeDefs.member?, type, hlt] using hmem, hu⟩
    | array type length elems =>
      have hlt := length ▸ (List.getElem?_eq_some_iff.mp he).1
      obtain ⟨u, hmem, hu⟩ := ih (elems e (List.mem_of_getElem? he)) hrest
      exact ⟨u, by simpa [TypeDefs.member?, type, hlt] using hmem, hu⟩
    | scalar alone => simp [alone] at he

theorem exists_path (h : c.Fills defs t) {u : Ty} {fields : List Const}
    (hmem : .struct u fields ∈ c.inside) : ∃ p, c.at? p = some (.struct u fields) := by
  -- By induction on the typing: whatever is inside a member is on a path through the member.
  induction h with
  | @struct u' t id packed types cs written type length hfields ih =>
    rw [inside_eq, List.mem_cons, List.mem_flatMap] at hmem
    rcases hmem with heq | ⟨e, he, hmem⟩
    · exact ⟨[], congrArg some heq.symm⟩
    · obtain ⟨i, hi⟩ := List.mem_iff_getElem?.mp he
      have hlt := length ▸ (List.getElem?_eq_some_iff.mp hi).1
      obtain ⟨p, hp⟩ := ih i e _ hi (List.getElem?_eq_getElem hlt) hmem
      exact ⟨i :: p, at?_cons_eq_some.mpr ⟨e, hi, hp⟩⟩
  | @array u' t len e cs type length helems ih =>
    rw [inside_eq, List.mem_cons, List.mem_flatMap] at hmem
    rcases hmem with heq | ⟨e, he, hmem⟩
    · cases heq
    · obtain ⟨i, hi⟩ := List.mem_iff_getElem?.mp he
      obtain ⟨p, hp⟩ := ih e he hmem
      exact ⟨i :: p, at?_cons_eq_some.mpr ⟨e, hi, hp⟩⟩
  | scalar alone structs => exact absurd hmem (structs u fields)

theorem struct? {u : Ty} {fields : List Const} (h : (Const.struct u fields).Fills defs t) :
    u.unnumbered = t.unnumbered ∧ ∃ st, defs.struct? t = some st ∧
      st.fields.length = fields.length := by
  cases h with
  | @struct _ _ id packed types _ written type length =>
    have hst : defs.struct? t = some ⟨id, packed, false, types⟩ := by
      simp [TypeDefs.struct?, Ty.struct?, type]
    exact ⟨written, _, hst, length.symm⟩
  | scalar alone structs => exact absurd (self_mem_inside _) (structs u fields)

theorem pointer {f : Nat} (h : c.Fills defs t) (hf : c.bare = .func f) :
    ∃ space e, defs.expand t = .ptr space e := by
  cases h with
  | struct => cases hf
  | array => cases hf
  | scalar _ _ pointer => exact pointer f hf

end Fills
end IR.Const

/-! ### Fields on paths -/

/-- The innermost field on a path that ends in a field of a struct is that field. -/
theorem IR.TypeDefs.innermost?_append {defs : TypeDefs} {found : Option FieldRef} {t u : Ty}
    {before : List Nat} (hmem : defs.member? t before = some u) {st : StructTy}
    (hst : defs.struct? u = some st) {i : Nat} (hi : i < st.fields.length) :
    defs.innermost? found t (before ++ [i]) = some ⟨st, i⟩ := by
  induction before generalizing found t with
  | nil =>
    cases hmem
    simp [innermost?, hst, hi]
  | cons j is ih =>
    rw [List.cons_append, innermost?]
    rcases member?_cons hmem with ⟨st', field, hst', -, hfield, hmem⟩ |
      ⟨len, e, hst', hexp, -, hmem⟩
    · simp only [hst', hfield]
      exact ih hmem
    · simp only [hst', hexp]
      exact ih hmem

namespace Layout

variable {l : Layout} {u : Ty}

theorem isLeaf_of_ptr {defs : TypeDefs} {space : Nat} {e : Ty}
    (h : defs.expand u = .ptr space e) : defs.IsLeaf u :=
  ⟨by simp [TypeDefs.struct?, Ty.struct?, h], by simp [h]⟩

theorem exact_ptr_pos (hdata : l.data.Positive) {space : Nat} {e : Ty}
    (h : l.defs.expand u = .ptr space e) : 0 < (l.exact u).size := by
  have hsize : (l.exact u).size = l.data.pointerSize.toNatClampNeg := by
    simp [exact, extent, extentBy, TypeDefs.struct?, Ty.struct?, h]
  rw [hsize, Nat.pos_iff_ne_zero]
  intro hzero
  have hword := ofNat_of_pos hdata.pointerSize
  rw [hzero] at hword
  exact absurd hdata.pointerSize (hword ▸ by decide)

end Layout

def IR.Const.place (t : Ty) (global : Nat) (p : List Nat) : Const :=
  .gep t (.global global) ((0 :: p).map fun i : Nat => .int (.int 32) i)

namespace Scanner

variable {sc : Scanner} (fr : Frame) {memory : Memory}

/-- The address that a path through an initial value selects designates the innermost field on the
path, if the path leads to a function. -/
theorem resolve_place (hdata : sc.layout.data.Positive) (hsc : sc.Regular) {t : Ty}
    (ht : t ∈ sc.module.laidOutTypes) (hsizes : sc.layout.Moderate (maxTypeDepth + 1) t)
    {c : Const} (hfills : c.Fills sc.layout.defs t) (hsmall : c.inside.length ≤ maxConstantNodes)
    (hmemory : sc.Sound memory) {p : List Nat} {d : Const} (hd : c.at? p = some d) {f : Nat}
    (hf : d.bare = .func f) (k : Nat) :
    (sc.resolve fr (.const (.place t k p)) memory).1 = sc.layout.defs.innermost? none t p := by
  obtain ⟨u, hmem, hu⟩ := hfills.at? hd
  obtain ⟨space, e, hptr⟩ := hu.pointer hf
  have hpath : ∀ i ∈ p, i < 2 ^ 63 := by
    intro i hi
    have hlt := c.lt_of_at? hd i hi
    unfold maxConstantNodes at hsmall
    omega
  let indices := ((0 :: p).map fun i : Nat => Const.int (.int 32) i).map Value.const
  have hindices : indices.map indexValue = (0 :: p).map Int64.ofNat := by
    rw [List.map_map, List.map_map]
    apply List.map_congr_left
    intro i hi
    have hlt : i < 2 ^ 63 := by
      rcases List.mem_cons.mp hi with rfl | hi
      · decide
      · exact hpath i hi
    exact Layout.indexValue_ofNat hlt (.int 32)
  have hgep : fr.gep? (fr.strip (.const (.place t k p))) = some ⟨t, .const (.global k), indices⟩ :=
    rfl
  have hsrc : ∀ c, fr.strip (.const (.global k)) = .const c → c.gep? = none := by
    intro c hc
    cases hc
    rfl
  have htame : sc.layout.Tame sc.structs (maxTypeDepth + 1) t :=
    hsizes.structs fun st hst => ⟨t, ht, hst⟩
  have hfits : 0 * (sc.layout.exact t).alloc + sc.layout.offsetIn t p < 2 ^ 63 := by
    have hinside := Layout.offsetIn_add_size_le htame (le_refl _) hmem
    have hlimit := htame.here.1.1
    unfold extentLimit at hlimit
    omega
  obtain ⟨layouts, hresolve, -⟩ := Layout.resolve_exact ⟨hsc.apart_structs, hdata⟩ hgep hsrc htame
    hmem (Layout.isLeaf_of_ptr hptr) (Layout.exact_ptr_pos hdata hptr) hpath hfits hindices
    memory.layouts hmemory
  simp only [resolve, hresolve]

/-- A call is looked up under the field that its callee is loaded from. -/
theorem provenance_of_load {callee src : Value} {elem : Ty}
    (h : (fr.inst? (fr.strip callee)).map Inst.op = some (.load elem src)) :
    (sc.provenance fr (some callee) memory).1 =
      (sc.resolve fr src memory).1.map fun r => ⟨sc.fieldSignature r, .ofNat r.index⟩ := by
  simp only [provenance, Option.bind_some, h]
  simp only [bind, StateT.bind]
  obtain ⟨field, memory'⟩ := sc.resolve fr src memory
  cases field <;> rfl

theorem evidence_mem_storeFacts {f f' : Nat} {dst : Value} {owner : Signature} {field : Nat} :
    .evidence f' owner field ∈ (sc.storeFacts fr (.const (.func f)) dst memory).1 ↔
      f' = f ∧ ∃ r, (sc.resolve fr dst memory).1 = some r ∧ sc.fieldSignature r = owner ∧
        r.index = field := by
  have hstrip : fr.strip (.const (.func f)) = .const (.func f) := rfl
  rw [sc.storeFacts_of_func hstrip, List.mem_cons, or_iff_right (by simp), List.mem_append,
    or_iff_left]
  · cases hr : (sc.resolve fr dst memory).1 with
    | none => simp
    | some r => simp [eq_comm]
  · split
    · split <;> simp
    · simp

/-- A store to the address of a path that ends in a field is recorded for that field, under the
struct that the initial value has there. -/
theorem resolve_endsInField (hdata : sc.layout.data.Positive) (hsc : sc.Regular)
    (hview : sc.view.defs = sc.layout.defs) {t : Ty} (ht : t ∈ sc.module.laidOutTypes)
    (hsizes : sc.layout.Moderate (maxTypeDepth + 1) t) {c : Const}
    (hfills : c.Fills sc.layout.defs t) (hsmall : c.inside.length ≤ maxConstantNodes)
    (hmemory : sc.Sound memory) {before : List Nat} {u : Ty} {fields : List Const}
    (hstruct : c.at? before = some (.struct u fields)) {i : Nat} {d : Const}
    (hfield : fields[i]? = some d) {f : Nat} (hf : d.bare = .func f) (k : Nat) :
    ∃ st, (sc.resolve fr (.const (.place t k (before ++ [i]))) memory).1 = some ⟨st, i⟩ ∧
      sc.fieldSignature ⟨st, i⟩ = sc.view.signature u := by
  obtain ⟨w, hmem, hw⟩ := hfills.at? hstruct
  obtain ⟨hwritten, st, hst, hlen⟩ := hw.struct?
  have hi : i < st.fields.length := hlen ▸ (List.getElem?_eq_some_iff.mp hfield).1
  have hpath : c.at? (before ++ [i]) = some d := (Const.at?_field hstruct i).trans hfield
  refine ⟨st, ?_, (TypeView.signature_eq hwritten (hview ▸ hst)).symm⟩
  rw [resolve_place fr hdata hsc ht hsizes hfills hsmall hmemory hpath hf]
  exact TypeDefs.innermost?_append hmem hst hi

end Scanner

/-- At any moment of a scan, the address of a function inside the initial value of a global
designates the innermost field on the path to it; so a store to that address is recorded for this
field and a call that loads from there is looked up under it. The initial value has the function
recorded for the same field exactly if the path ends in a field. -/
theorem initial_evidence_as_stored (pass : Pass) (module : Nat) (path : ByteString) (m : Module)
    (hm : (pass.scanner module path m).Regular) {k : Nat} {g : Global}
    (hg : m.globals[k]? = some g) {c : Const} (hinit : g.init = some c)
    (hfills : c.Fills m.typeDefs g.content) (hshort : c.ShortCasts)
    (hsmall : c.inside.length ≤ maxConstantNodes)
    (hsizes : (pass.scanner module path m).layout.Moderate (maxTypeDepth + 1) g.content)
    (fr : Frame) {before : List Scanner.Step}
    (hbefore : before ⊆ (pass.scanner module path m).steps) :
    let sc := pass.scanner module path m
    let memory := sc.memoryAfter before .empty
    let address := fun p => Value.const (.place g.content k p)
    (∀ p d f, c.at? p = some d → d.bare = .func f →
      (sc.resolve fr (address p) memory).1 = m.typeDefs.innermost? none g.content p ∧
      ∀ callee elem, (fr.inst? (fr.strip callee)).map Inst.op = some (.load elem (address p)) →
        (sc.provenance fr (some callee) memory).1 = (m.typeDefs.innermost? none g.content p).map
          fun r => ⟨sc.fieldSignature r, .ofNat r.index⟩) ∧
    ∀ f owner field, .evidence f owner field ∈ sc.globalFacts g ↔
      ∃ p d, c.at? p = some d ∧ d.bare = .func f ∧ c.EndsInField p ∧
        .evidence f owner field ∈ (sc.storeFacts fr (.const (.func f)) (address p) memory).1 := by
  intro sc memory address
  have hdata : sc.layout.data.Positive := DataLayout.ofText_positive m.dataLayout
  have hmemory : sc.Sound memory := Scanner.memoryAfter_sound hm hbefore
  have ht : g.content ∈ sc.module.laidOutTypes :=
    List.mem_append_left _ (List.mem_map_of_mem (List.mem_of_getElem? hg))
  have hmodest : ∀ c' ∈ g.init, c'.Modest := by
    intro c' hc'
    rw [hinit] at hc'
    cases hc'
    exact ⟨hshort, c.walked_le.trans hsmall⟩
  refine ⟨fun p d f hd hf => ?_, fun f owner field => ?_⟩
  · have hresolve := Scanner.resolve_place fr hdata hm ht hsizes hfills hsmall hmemory hd hf k
    refine ⟨hresolve, fun callee elem hload => ?_⟩
    rw [Scanner.provenance_of_load fr hload]
    exact congrArg _ hresolve
  · rw [Scanner.mem_globalFacts hmodest]
    simp only [Scanner.evidence_mem_storeFacts, true_and]
    constructor
    · rintro ⟨c', hc', htells⟩
      rw [hinit] at hc'
      cases hc'
      cases htells with
      | @evidence _ t fields _ d hstruct hfield hf =>
        obtain ⟨p, hp⟩ := hfills.exists_path hstruct
        have hpath : c.at? (p ++ [field]) = some d := (Const.at?_field hp field).trans hfield
        obtain ⟨st, hresolve, hsig⟩ := Scanner.resolve_endsInField fr hdata hm rfl ht hsizes hfills
          hsmall hmemory hp hfield hf k
        exact ⟨p ++ [field], d, hpath, hf, ⟨p, field, t, fields, rfl, hp⟩, _, hresolve, hsig, rfl⟩
    · rintro ⟨_, d, hd, hf, ⟨p, i, t, fields, rfl, hp⟩, r, hr, rfl, rfl⟩
      have hfield : fields[i]? = some d := (Const.at?_field hp i).symm.trans hd
      obtain ⟨st, hresolve, hsig⟩ := Scanner.resolve_endsInField fr hdata hm rfl ht hsizes hfills
        hsmall hmemory hp hfield hf k
      rw [hresolve] at hr
      cases hr
      rw [hsig]
      exact ⟨c, hinit, .evidence (Const.mem_inside_of_at? hp) hfield hf⟩

namespace Slots

open Table

/-- A struct that holds a row of two functions and a struct, written in place, with a third. -/
def defs : TypeDefs :=
  [("ops", .struct (.named "ops") false
    [.array 2 hook, .struct (.literal 0) false [hook, .int 32]])]

def ops : StructTy :=
  ⟨.named "ops", false, false, [.array 2 hook, .struct (.literal 0) false [hook, .int 32]]⟩

def inner : StructTy := ⟨.literal 0, false, false, [hook, .int 32]⟩

def init : Const :=
  .struct (.named "ops") [.array (.array 2 hook) [.func 0, .func 1],
    .struct (.struct (.literal 1) false [hook, .int 32]) [.cast .bit (.func 2) hook,
      .int (.int 32) 0]]

def table : Global := ⟨.named "table", .internalOnly, 0, .named "ops", some init⟩

/-- Has a table of three functions and stores a fourth into the row. -/
def owner : Module := { Module.empty with
  typeDefs := defs
  globals := [table]
  funcs := [func "first" .internalOnly [] [], func "second" .internalOnly [] [],
    func "third" .internalOnly [] [], func "fourth" .internalOnly [] [],
    func "setup" .unspecified [] [
      ⟨.store (.const (.func 3)) (.const (.place (.named "ops") 0 [0, 1])), .void, []⟩]] }

def scanner : Scanner := (Pass.ofProgram [⟨"owner", some owner⟩]).scanner 0 "owner" owner

theorem mem_structs {st : StructTy} (h : st ∈ scanner.structs) : st = ops ∨ st = inner := by
  obtain ⟨t, ht, hst⟩ := h
  have hlist : (scanner.module.laidOutTypes.flatMap
      (scanner.layout.defs.structsIn (maxTypeDepth + 1))) = [ops, inner, ops, inner] := rfl
  have hmem := List.mem_flatMap.mpr ⟨t, ht, hst⟩
  rw [hlist] at hmem
  simp only [List.mem_cons, List.not_mem_nil, or_false] at hmem
  tauto

theorem regular : scanner.Regular where
  nested := by decide +kernel
  apart := by
    intro st hst st' hst' hid
    rcases mem_structs hst with rfl | rfl
    · rcases mem_structs hst' with rfl | rfl
      · rfl
      · cases hid
    · rcases mem_structs hst' with rfl | rfl
      · cases hid
      · rfl

theorem fills : init.Fills defs table.content := by
  have hfunc (f : Nat) : (Const.func f).Fills defs hook :=
    .scalar rfl (by simp [Const.inside]) fun _ _ => ⟨_, _, rfl⟩
  refine .struct rfl rfl rfl fun i c type hc ht => ?_
  match i, hc, ht with
  | 0, rfl, rfl =>
    refine .array rfl rfl fun c hc => ?_
    simp only [List.mem_cons, List.not_mem_nil, or_false] at hc
    rcases hc with rfl | rfl <;> exact hfunc _
  | 1, rfl, rfl =>
    refine .struct rfl rfl rfl fun i c type hc ht => ?_
    match i, hc, ht with
    | 0, rfl, rfl => exact .scalar rfl (by simp [Const.inside]) fun _ _ => ⟨_, _, rfl⟩
    | 1, rfl, rfl => exact .scalar rfl (by simp [Const.inside]) fun _ hf => nomatch hf

end Slots

/-- The third function is recorded for the field it is in. The second is not recorded, although its
place is found to be in the first field of the outer struct. -/
theorem initial_evidence_as_stored_slots :
    let sc := Slots.scanner
    let memory := sc.memoryAfter sc.steps .empty
    (sc.resolve ⟨Slots.owner, none⟩ (.const (.place (.named "ops") 0 [0, 1])) memory).1 =
        some ⟨Slots.ops, 0⟩ ∧
      .evidence 2 (sc.fieldSignature ⟨Slots.inner, 0⟩) 0 ∈ sc.globalFacts Slots.table ∧
      ∀ owner field, .evidence 1 owner field ∉ sc.globalFacts Slots.table := by
  intro sc memory
  have hsizes : Slots.scanner.layout.Moderate (maxTypeDepth + 1) Slots.table.content := by
    decide +kernel
  obtain ⟨hplace, hrecorded⟩ := initial_evidence_as_stored
    (Pass.ofProgram [⟨"owner", some Slots.owner⟩]) 0 "owner" Slots.owner Slots.regular (k := 0)
    rfl rfl Slots.fills (by decide) (by decide) hsizes ⟨Slots.owner, none⟩ (List.Subset.refl _)
  refine ⟨(hplace [0, 1] _ 1 rfl rfl).1, ?_, ?_⟩
  · refine (hrecorded 2 _ 0).mpr ⟨[1, 0], _, rfl, rfl, ⟨[1], 0, _, _, rfl, rfl⟩, ?_⟩
    exact Scanner.evidence_mem_storeFacts _ |>.mpr
      ⟨rfl, ⟨Slots.inner, 0⟩, (hplace [1, 0] _ 2 rfl rfl).1, rfl, rfl⟩
  · have hnone : ∀ fact ∈ Slots.scanner.globalFacts Slots.table, fact.func? = some 1 →
        fact.slot? = none := by decide +kernel
    intro owner field hmem
    cases hnone _ hmem rfl

end CallTargets
