import CallTargets.Proofs.Layout.Placement

/-!
# Addresses lead back to fields

An address computation steps over whole objects, then through fields of structs and elements of
arrays. All that is kept of it is a number of bytes. The field that is found at this number is the
last one the indices step through: nothing is lost, whatever the sizes and alignments are, and the
elements of arrays leave no trace.
-/
namespace CallTargets

open IR

/-! ### Steps of indices -/

/-- Indices step from a type to a member of it, through the given fields in this order. Fields are
selected by constants. An element of an array is selected by a constant that is in bounds or by any
other value, if there are elements. -/
inductive IR.TypeDefs.Selects (defs : TypeDefs) : Ty → List Value → List FieldRef → Ty → Prop
  | here {t : Ty} : defs.Selects t [] [] t
  | field {t : Ty} {st : StructTy} {i : Nat} {type member u : Ty} {indices : List Value}
      {fields : List FieldRef} (struct : defs.struct? t = some st)
      (found : st.fields[i]? = some member) (word : i < 2 ^ 63)
      (rest : defs.Selects member indices fields u) :
      defs.Selects t (.const (.int type i) :: indices) (⟨st, i⟩ :: fields) u
  | element {t e : Ty} {len : UInt64} {i : Nat} {type u : Ty} {indices : List Value}
      {fields : List FieldRef} (array : defs.expand t = .array len e) (bound : i < len.toNat)
      (rest : defs.Selects e indices fields u) :
      defs.Selects t (.const (.int type i) :: indices) fields u
  | anyElement {t e : Ty} {len : UInt64} {v : Value} {u : Ty} {indices : List Value}
      {fields : List FieldRef} (array : defs.expand t = .array len e) (nonempty : 0 < len.toNat)
      (other : ∀ type i, v ≠ .const (.int type i)) (rest : defs.Selects e indices fields u) :
      defs.Selects t (v :: indices) fields u

theorem IR.TypeDefs.member?_of_struct {defs : TypeDefs} {t member : Ty} {st : StructTy} {i : Nat}
    (h : defs.struct? t = some st) (hfield : st.fields[i]? = some member) (path : List Nat) :
    defs.member? t (i :: path) = defs.member? member path := by
  unfold struct? Ty.struct? at h
  split at h
  · next heq =>
    cases h
    simp [member?, heq, hfield]
  · cases h
    cases hfield
  · cases h

/-- The number that a constant index stands for; any other index counts as zero. -/
def indexNumber : Value → Int
  | .const (.int _ v) => v
  | _ => 0

theorem indexNumber_of_ne {v : Value} (h : ∀ type i, v ≠ .const (.int type i)) :
    indexNumber v = 0 := by
  unfold indexNumber
  split
  · exact absurd rfl (h _ _)
  · rfl

theorem indexValue_of_ne {v : Value} (h : ∀ type i, v ≠ .const (.int type i)) :
    indexValue v = 0 := by
  unfold indexValue
  split
  · exact absurd rfl (h _ _)
  · rfl

namespace Layout

variable {l : Layout} {S : Set StructTy}

/-- The offset that indices select inside an object of a type, as an integer of any size. A struct
has to have the field. -/
def innerExact? (l : Layout) : Ty → List Value → Option Int
  | _, [] => some 0
  | t, i :: is =>
    match l.defs.struct? t with
    | some st =>
      if indexNumber i < 0 then none
      else match st.fields[(indexNumber i).toNat]?, (l.fieldStarts st)[(indexNumber i).toNat]? with
        | some field, some start => (l.innerExact? field is).map fun o => start + o
        | _, _ => none
    | none =>
      match l.defs.expand t with
      | .array _ e | .vector _ _ e =>
        (l.innerExact? e is).map fun o => indexNumber i * (l.exact e).alloc + o
      | _ => none

/-- The exact offset of an index list: the first index steps over whole objects. -/
def exactOffset? (l : Layout) (elem : Ty) : List Value → Option Int
  | [] => some 0
  | i :: is => (l.innerExact? elem is).map fun o => indexNumber i * (l.exact elem).alloc + o

/-- The number of an element that holds something is a word. -/
theorem index_lt_of_array {n : Nat} (hn : n ≤ maxTypeDepth) {t e u : Ty}
    (ht : l.Moderate (n + 1) t) {len : UInt64} (hexp : l.defs.expand t = .array len e)
    {path : List Nat} (hmem : l.defs.member? e path = some u) (hsize : 0 < (l.exact u).size)
    {i : Nat} (hi : i < len.toNat) : i < 2 ^ 63 := by
  have hinside := offsetIn_add_size_le (ht.part (TypeDefs.mem_parts_of_array hexp)) (by omega) hmem
  have hroom := (l.exact e).size_le_alloc
  have hlimit := ht.here.1
  rw [exact_of_array ht hn hexp, extentLimit] at hlimit
  have hlen : len.toNat * 1 ≤ len.toNat * (l.exact e).alloc := Nat.mul_le_mul_left _ (by omega)
  dsimp only at hlimit
  omega

/-- Indices that step to a member are, as numbers, a path to it: it passes the same fields, has the
same offset, and its numbers are words. -/
theorem exists_path {n : Nat} (hn : n ≤ maxTypeDepth + 1) {t u : Ty} {indices : List Value}
    {fields : List FieldRef} (ht : l.Moderate n t) (h : l.defs.Selects t indices fields u)
    (hsize : 0 < (l.exact u).size) :
    ∃ path, l.defs.member? t path = some u ∧ indices.map indexValue = path.map Int64.ofNat ∧
      (∀ i ∈ path, i < 2 ^ 63) ∧ l.innerExact? t indices = some (l.offsetIn t path : Int) ∧
      ∀ found, l.defs.innermost? found t path = fields.getLast?.or found := by
  induction h generalizing n with
  | here => exact ⟨[], rfl, rfl, by simp, rfl, fun found => rfl⟩
  | @field t st i type member u indices fields hst hfield hword _ ih =>
    obtain ⟨n, rfl⟩ := ht.exists_succ
    obtain ⟨path, hmem, hvalues, hwords, hoffset, hlast⟩ :=
      ih (by omega) (ht.part (TypeDefs.mem_parts_of_field hst hfield)) hsize
    obtain ⟨s, hs⟩ := l.start_of_field hfield
    refine ⟨i :: path, ?_, ?_, ?_, ?_, ?_⟩
    · rw [TypeDefs.member?_of_struct hst hfield, hmem]
    · simp [indexValue_ofNat hword, hvalues]
    · simpa using ⟨hword, hwords⟩
    · simp [innerExact?, indexNumber, offsetIn, hst, hfield, hs, hoffset]
    · intro found
      simp [TypeDefs.innermost?, hst, hfield, hlast, List.getLast?_cons]
  | @element t e len i type u indices fields hexp hi _ ih =>
    obtain ⟨n, rfl⟩ := ht.exists_succ
    have hin := ht.part (TypeDefs.mem_parts_of_array hexp)
    obtain ⟨path, hmem, hvalues, hwords, hoffset, hlast⟩ := ih (by omega) hin hsize
    have hst : l.defs.struct? t = none := TypeDefs.struct?_of_array hexp
    have hword := index_lt_of_array (by omega) ht hexp hmem hsize hi
    refine ⟨i :: path, ?_, ?_, ?_, ?_, ?_⟩
    · simp [TypeDefs.member?, hexp, hi, hmem]
    · simp [indexValue_ofNat hword, hvalues]
    · simpa using ⟨hword, hwords⟩
    · simp [innerExact?, indexNumber, offsetIn, hst, hexp, hoffset]
    · intro found
      simp [TypeDefs.innermost?, hst, hexp, hlast]
  | @anyElement t e len v u indices fields hexp hlen hv _ ih =>
    obtain ⟨n, rfl⟩ := ht.exists_succ
    have hin := ht.part (TypeDefs.mem_parts_of_array hexp)
    obtain ⟨path, hmem, hvalues, hwords, hoffset, hlast⟩ := ih (by omega) hin hsize
    have hst : l.defs.struct? t = none := TypeDefs.struct?_of_array hexp
    refine ⟨0 :: path, ?_, ?_, ?_, ?_, ?_⟩
    · simp [TypeDefs.member?, hexp, hlen, hmem]
    · simp [indexValue_of_ne hv, hvalues]
    · simpa using hwords
    · simp [innerExact?, indexNumber_of_ne hv, offsetIn, hst, hexp, hoffset]
    · intro found
      simp [TypeDefs.innermost?, hst, hexp, hlast]

end Layout

/-- An address computed by a constant step over whole objects and by indices that step through at
least one field designates the last of these fields, if the member it leads to is neither a struct
nor an array and is not empty, and if the exact offset is a word. The data layout and the elements
of arrays play no part in the answer. -/
theorem resolve_inverts_indices {l : Layout} {text : String} (hl : l.data = .ofText text)
    {fr : Frame} {addr src : Value} {elem type : Ty} {k : Nat} {indices : List Value}
    (hgep : fr.gep? (fr.strip addr) = some ⟨elem, src, .const (.int type k) :: indices⟩)
    (hsrc : ∀ c, fr.strip src = .const c → c.gep? = none)
    (hid : l.Identified elem) (hmoderate : l.Moderate (maxTypeDepth + 1) elem)
    {fields : List FieldRef} {u : Ty} (hselects : l.defs.Selects elem indices fields u)
    (hfields : fields ≠ [])
    (hleaf : l.defs.IsLeaf u) (hsize : 0 < (l.exact u).size) {o : Int}
    (hoffset : l.exactOffset? elem (.const (.int type k) :: indices) = some o)
    (hfits : Text.fitsInt64 o = true) :
    Layout.Agrees l (l.structsOf elem) (l.resolve fr addr)
      (some (some (fields.getLast hfields))) := by
  obtain ⟨h, helem⟩ := Layout.exactly_structsOf hl hid hmoderate
  obtain ⟨path, hmem, hvalues, hwords, hinner, hlast⟩ :=
    Layout.exists_path (le_refl _) hmoderate hselects hsize
  have hbound : k * (l.exact elem).alloc + l.offsetIn elem path < 2 ^ 63 := by
    rw [Layout.exactOffset?, hinner, Option.map_some, Option.some_inj] at hoffset
    simp only [Text.fitsInt64, Bool.and_eq_true, decide_eq_true_eq] at hfits
    have hmax : o ≤ 2 ^ 63 - 1 := hfits.2
    rw [← hoffset, indexNumber] at hmax
    omega
  have hword : k < 2 ^ 63 := by
    have hinside := Layout.offsetIn_add_size_le helem (le_refl _) hmem
    have hroom := (l.exact elem).size_le_alloc
    have hstep : k * 1 ≤ k * (l.exact elem).alloc := Nat.mul_le_mul_left _ (by omega)
    omega
  have hanswer : l.defs.innermost? none elem path = some (fields.getLast hfields) := by
    rw [hlast, List.getLast?_eq_getLast_of_ne_nil hfields]
    rfl
  have hresolve := Layout.resolve_exact h hgep hsrc helem hmem hleaf hsize hwords hbound
    (by simp [Layout.indexValue_ofNat hword, hvalues])
  rwa [hanswer] at hresolve

namespace Nested

def steps : List Const := [.int (.int 32) 1, .int (.int 32) 1, .plain (.int 64), .int (.int 32) 2]

def address : Value := .const (.gep (.named "outer") (.global 0) (.int (.int 64) 2 :: steps))

theorem steps_select :
    layout.defs.Selects (.named "outer") (steps.map .const)
      [⟨outer, 1⟩, ⟨middle, 1⟩, ⟨inner, 2⟩] hook := by
  have harray : layout.defs.expand (.array 3 (.named "inner")) = .array 3 (.named "inner") := rfl
  exact .field (i := 1) rfl rfl (by decide) <| .field (i := 1) rfl rfl (by decide) <|
    .anyElement harray (by decide) (by simp) <| .field (i := 2) rfl rfl (by decide) .here

end Nested

/-- The hook is 79 bytes behind the global. There the third field of the inner struct is found, not
the empty one that starts at the same place. -/
theorem resolve_inverts_indices_nested :
    Nested.layout.exactOffset? (.named "outer")
        (.const (.int (.int 64) 2) :: Nested.steps.map .const) = some 79 ∧
      ∃ cache, Nested.layout.resolve ⟨Module.empty, none⟩ Nested.address [] =
        some (some ⟨Nested.inner, 2⟩, cache) := by
  let fr : Frame := ⟨Module.empty, none⟩
  have hgep : fr.gep? (fr.strip Nested.address) = some ⟨.named "outer", .const (.global 0),
      .const (.int (.int 64) (2 : Nat)) :: Nested.steps.map .const⟩ := rfl
  have hsrc : ∀ c, fr.strip (.const (.global 0)) = .const c → c.gep? = none := by
    intro c hc
    cases hc
    rfl
  have hoffset : Nested.layout.exactOffset? (.named "outer")
      (.const (.int (.int 64) 2) :: Nested.steps.map .const) = some 79 := by decide +kernel
  obtain ⟨cache, hrun, -⟩ := resolve_inverts_indices (l := Nested.layout) rfl hgep hsrc
    Nested.identified Nested.moderate Nested.steps_select (by simp) ⟨rfl, nofun⟩
    (by decide +kernel) hoffset (by decide) [] (Layout.sound_nil _ _)
  exact ⟨hoffset, cache, hrun⟩

end CallTargets
