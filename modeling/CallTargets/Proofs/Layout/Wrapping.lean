import CallTargets.Proofs.Layout.Covering
import CallTargets.Proofs.Layout.Inversion
import CallTargets.Proofs.Layout.Judgement

/-!
# Offsets that are no words

Offsets of addresses are summed up in words, which wrap around. No overflow is noticed on the way:
the offset that comes out is the exact one modulo `2 ^ 64`, and an index that is no word counts as
zero. So an address whose exact offset is too large is taken for another one, unless the word for it
happens to be negative.
-/
namespace CallTargets

open IR

/-! ### Indices as they are read -/

/-- An index as it is read: a constant that is no word counts as zero. -/
def wordIndex : Value → Value
  | .const (.int t v) => .const (.int t (if Text.fitsInt64 v then v else 0))
  | v => v

theorem fitsInt64_iff {n : Int} : Text.fitsInt64 n = true ↔ -2 ^ 63 ≤ n ∧ n < 2 ^ 63 := by
  have hmin := Int64.toInt_minValue
  have hmax := Int64.toInt_maxValue
  simp only [Text.fitsInt64, Bool.and_eq_true, decide_eq_true_eq]
  omega

theorem indexNumber_wordIndex (v : Value) : indexNumber (wordIndex v) = (indexValue v).toInt := by
  unfold wordIndex
  split
  · next t n =>
    by_cases h : Text.fitsInt64 n = true
    · obtain ⟨hlow, hhigh⟩ := fitsInt64_iff.mp h
      simp only [h, if_true, indexNumber, indexValue]
      exact (Int64.toInt_ofInt_of_le hlow hhigh).symm
    · simp [h, indexNumber, indexValue]
  · next hno => rw [indexNumber_of_ne hno, indexValue_of_ne hno, Int64.toInt_zero]

theorem wordIndex_of_fits {v : Value} (h : Text.fitsInt64 (indexNumber v) = true) :
    wordIndex v = v := by
  unfold wordIndex
  split
  · next t n =>
    have hn : Text.fitsInt64 n = true := h
    rw [if_pos hn]
  · rfl

/-- An address computation with its indices as they are read. -/
def IR.Gep.asRead (g : Gep) : Gep := { g with indices := g.indices.map wordIndex }

theorem IR.Gep.asRead_of_fits {g : Gep}
    (h : ∀ i ∈ g.indices, Text.fitsInt64 (indexNumber i) = true) : g.asRead = g := by
  have hmap : g.indices.map wordIndex = g.indices :=
    (List.map_congr_left fun i hi => wordIndex_of_fits (h i hi)).trans (List.map_id _)
  rw [asRead, hmap]

namespace Layout

variable {l : Layout} {S : Set StructTy}

/-! ### Exact offsets, wrapped -/

/-- The type that a chain of address computations counts from, and the sum of their exact offsets.
The last one is the innermost. -/
def foldedOffset? (l : Layout) : List Gep → Option (Ty × Int)
  | [] => none
  | [g] => (l.exactOffset? g.elem g.indices).map fun o => (g.elem, o)
  | g :: inner :: rest =>
    (l.exactOffset? g.elem g.indices).bind fun o =>
      (l.foldedOffset? (inner :: rest)).map fun x => (x.1, o + x.2)

theorem map_ofInt_add (x : Option Int) (before : Int64) (a : Int) :
    (x.map fun o => a + o).map (fun o => before + Int64.ofInt o) =
      x.map fun o => before + Int64.ofInt a + Int64.ofInt o := by
  cases x <;> simp [Int64.ofInt_add, Int64.add_assoc]

/-- Inside an object, the word for an offset is the exact offset modulo `2 ^ 64`. -/
theorem innerOffset_wraps (h : l.Exactly S) {n : Nat} (hn : n ≤ maxTypeDepth + 1) {t : Ty}
    (ht : l.Tame S n t) (indices : List Value) (before : Int64) :
    Agrees l S (l.innerOffset t indices before)
      (some ((l.innerExact? t (indices.map wordIndex)).map fun o => before + .ofInt o)) := by
  induction indices generalizing n t before with
  | nil =>
    have hzero : before + Int64.ofInt 0 = before := Int64.add_zero before
    simp only [List.map_nil, innerExact?, Option.map_some, hzero]
    exact .pure _
  | cons i is ih =>
    obtain ⟨n, rfl⟩ := ht.exists_succ
    have hnumber := indexNumber_wordIndex i
    have hneg : indexValue i < 0 ↔ indexNumber (wordIndex i) < 0 := by
      rw [hnumber, Int64.lt_iff_toInt_lt, Int64.toInt_zero]
    have hvalue : indexValue i = .ofInt (indexNumber (wordIndex i)) := by
      rw [hnumber, Int64.ofInt_toInt]
    -- An element of an array or a vector: the index times the room that an element takes.
    have helement (e : Ty) (he : e ∈ l.defs.parts t) :
        Agrees l S (l.alloc e >>= fun size => l.innerOffset e is (before + indexValue i * size))
          (some (((l.innerExact? e (is.map wordIndex)).map fun o =>
            indexNumber (wordIndex i) * (l.exact e).alloc + o).map fun o =>
              before + .ofInt o)) := by
      refine (alloc_exact h (by omega) (ht.part he)).then ?_
      rw [map_ofInt_add, Int64.ofInt_mul, ← hvalue, Int64.ofInt_eq_ofNat]
      exact ih (by omega) (ht.part he) _
    rw [List.map_cons, innerOffset, innerExact?]
    cases hst : l.defs.struct? t with
    | some st =>
      dsimp only
      by_cases hlow : indexNumber (wordIndex i) < 0
      · rw [if_pos (hneg.mpr hlow), if_pos hlow]
        exact .pure none
      · rw [if_neg (hneg.not.mpr hlow), if_neg hlow, hnumber]
        cases hfield : st.fields[(indexValue i).toInt.toNat]? with
        | none => exact .pure none
        | some field =>
          obtain ⟨s, hs⟩ := l.start_of_field hfield
          have hin := TypeDefs.mem_parts_of_field hst hfield
          have hword : (((l.fieldStarts st).map Int64.ofNat)[(indexValue i).toInt.toNat]?).getD 0 =
              .ofNat s := by
            rw [List.getElem?_map, hs]
            rfl
          rw [hs]
          refine (fieldOffsets_exact h (by omega) ht hst).then ?_
          rw [hword, map_ofInt_add, Int64.ofInt_eq_ofNat]
          exact ih (by omega) (ht.part hin) _
    | none =>
      cases hexp : l.defs.expand t with
      | array len e => exact helement e (TypeDefs.mem_parts_of_array hexp)
      | vector scalable len e => exact helement e (by simp [TypeDefs.parts_of_vector hexp])
      | _ => exact .pure none

theorem indexedOffset_wraps (h : l.Exactly S) {t : Ty} (ht : l.Tame S (maxTypeDepth + 1) t)
    (indices : List Value) :
    Agrees l S (l.indexedOffset t indices)
      (some ((l.exactOffset? t (indices.map wordIndex)).map Int64.ofInt)) := by
  cases indices with
  | nil => exact .pure _
  | cons i is =>
    have hvalue : indexValue i = .ofInt (indexNumber (wordIndex i)) := by
      rw [indexNumber_wordIndex, Int64.ofInt_toInt]
    have hsum : ((l.innerExact? t (is.map wordIndex)).map fun o =>
        indexNumber (wordIndex i) * (l.exact t).alloc + o).map Int64.ofInt =
          (l.innerExact? t (is.map wordIndex)).map fun o =>
            indexValue i * .ofNat (l.exact t).alloc + .ofInt o := by
      rw [hvalue, ← Int64.ofInt_eq_ofNat]
      cases l.innerExact? t (is.map wordIndex) <;> simp [Int64.ofInt_add, Int64.ofInt_mul]
    rw [indexedOffset, List.map_cons, exactOffset?, hsum]
    exact (alloc_exact h (le_refl _) ht).then (innerOffset_wraps h (le_refl _) ht is _)

/-- A chain of address computations is folded to the sum of their exact offsets modulo `2 ^ 64`. -/
theorem foldGeps_wraps (h : l.Exactly S) (fr : Frame) (n : Nat) {g : Gep}
    (hchain : ∀ g' ∈ fr.chain n g, l.Tame S (maxTypeDepth + 1) g'.elem) (before : Int64) :
    Agrees l S (l.foldGeps fr n g before)
      (some ((l.foldedOffset? ((fr.chain n g).map Gep.asRead)).map fun x =>
        (x.1, before + .ofInt x.2))) := by
  induction n generalizing g before with
  | zero =>
    have hindexed := indexedOffset_wraps h (hchain g (by simp [Frame.chain])) g.indices
    rw [foldGeps_zero]
    refine hindexed.then ?_
    simp only [Frame.chain, List.map_cons, List.map_nil, foldedOffset?, Gep.asRead]
    cases l.exactOffset? g.elem (g.indices.map wordIndex) <;> exact .pure _
  | succ n ih =>
    have hindexed := indexedOffset_wraps h (hchain g (by simp [Frame.chain])) g.indices
    rw [foldGeps_succ]
    refine hindexed.then ?_
    cases hinner : fr.inner? g with
    | none =>
      simp only [Frame.chain, hinner, Option.map_none, Option.getD_none, List.map_cons,
        List.map_nil, foldedOffset?, Gep.asRead]
      cases l.exactOffset? g.elem (g.indices.map wordIndex) <;> exact .pure _
    | some inner =>
      have hrest : ∀ g' ∈ fr.chain n inner, l.Tame S (maxTypeDepth + 1) g'.elem := by
        intro g' hg'
        exact hchain g' (by simp [Frame.chain, hinner, hg'])
      obtain ⟨rest, hcons⟩ := chain_eq_cons fr n inner
      have hfold : l.foldedOffset? ((fr.chain (n + 1) g).map Gep.asRead) =
          (l.exactOffset? g.elem (g.indices.map wordIndex)).bind fun o =>
            (l.foldedOffset? ((fr.chain n inner).map Gep.asRead)).map fun x => (x.1, o + x.2) := by
        simp only [Frame.chain, hinner, Option.map_some, Option.getD_some, hcons, List.map_cons,
          foldedOffset?, Gep.asRead]
      rw [hfold]
      cases l.exactOffset? g.elem (g.indices.map wordIndex) with
      | none => exact .pure none
      | some o =>
        have hsum : ((l.foldedOffset? ((fr.chain n inner).map Gep.asRead)).map fun x =>
            (x.1, o + x.2)).map (fun x => (x.1, before + Int64.ofInt x.2)) =
              (l.foldedOffset? ((fr.chain n inner).map Gep.asRead)).map fun x =>
                (x.1, before + .ofInt o + .ofInt x.2) := by
          cases l.foldedOffset? ((fr.chain n inner).map Gep.asRead) <;>
            simp [Int64.ofInt_add, Int64.add_assoc]
        rw [Option.bind_some, hsum]
        exact ih hrest (before + .ofInt o)

/-- The type that a chain counts from is one of those in the chain. -/
theorem elem_of_foldedOffset? {links : List Gep} {x : Ty × Int}
    (h : l.foldedOffset? links = some x) : ∃ g ∈ links, x.1 = g.elem := by
  induction links generalizing x with
  | nil => cases h
  | cons g links ih =>
    cases links with
    | nil =>
      obtain ⟨o, -, rfl⟩ := Option.map_eq_some_iff.mp h
      exact ⟨g, List.mem_cons_self, rfl⟩
    | cons inner rest =>
      obtain ⟨o, -, hrest⟩ := Option.bind_eq_some_iff.mp h
      obtain ⟨y, hy, rfl⟩ := Option.map_eq_some_iff.mp hrest
      obtain ⟨g', hg', helem⟩ := ih hy
      exact ⟨g', List.mem_cons_of_mem g hg', helem⟩

theorem fieldAt_word (h : l.Exactly S) {t : Ty} (ht : l.Tame S (maxTypeDepth + 1) t)
    (offset : Int64) :
    ∃ answer, Agrees l S (l.fieldAt t offset) (some answer) ∧
      (answer.isSome ↔ 0 ≤ offset ∧ l.defs.FieldsBelow t) ∧
      ∀ r ∈ answer, l.Innermost t offset.toNatClampNeg r := by
  by_cases hneg : offset < 0
  · refine ⟨none, ?_, by simp [Int64.not_le.mpr hneg], by simp⟩
    unfold fieldAt
    rw [if_pos hneg]
    exact .pure none
  · have hpos : 0 ≤ offset := Int64.not_lt.mp hneg
    obtain ⟨answer, hanswer, hiff, hall⟩ := fieldAt_covers h ht (toNatClampNeg_lt offset)
    rw [Int64.ofNat_toNatClampNeg _ hpos] at hanswer
    exact ⟨answer, hanswer, by simp [hiff, hpos], fun r hr => (hall r hr).2⟩

theorem gepOffset_word (h : l.Exactly S) {fr : Frame} {v : Value} {g : Gep}
    (hgep : fr.gep? v = some g)
    (hlinks : ∀ g' ∈ fr.links v, l.Tame S (maxTypeDepth + 1) g'.elem) :
    Agrees l S (l.gepOffset fr v)
      (some ((l.foldedOffset? ((fr.links v).map Gep.asRead)).map fun x =>
        (x.1, Int64.ofInt x.2))) := by
  have hchain : fr.links v = fr.chain (maxGeps - 1) g := by simp [Frame.links, hgep]
  rw [hchain] at hlinks ⊢
  have hfold := foldGeps_wraps h fr (maxGeps - 1) hlinks 0
  simp only [Int64.zero_add] at hfold
  rwa [gepOffset, hgep]

/-- Types of moderate size are measured exactly, all of them together. -/
theorem exactly_structsAmong {text : String} (hl : l.data = .ofText text) {ts : List Ty}
    (hid : l.Distinct ts) (hts : ∀ t ∈ ts, l.Moderate (maxTypeDepth + 1) t) :
    l.Exactly (l.structsAmong ts) ∧
      ∀ t ∈ ts, l.Tame (l.structsAmong ts) (maxTypeDepth + 1) t :=
  ⟨⟨hid.apart, hl ▸ DataLayout.ofText_positive text⟩,
    fun t ht => (hts t ht).structs fun _ hst => ⟨t, ht, hst⟩⟩

end Layout

/-- An address computation over types of moderate size is folded to its exact offset modulo
`2 ^ 64`, indices that are no words counting as zero. Overflow makes no difference: it fails only if
an index list does not fit its type. The field that is resolved is the innermost one at the wrapped
offset; it is missing if this offset is negative, or if there is no struct to find it in. -/
theorem gepOffset_wraps {l : Layout} {text : String} (hl : l.data = .ofText text) {fr : Frame}
    {addr : Value} {g : Gep} (hgep : fr.gep? (fr.strip addr) = some g)
    (hid : l.Distinct (fr.addressTypes addr))
    (hmoderate : ∀ t ∈ fr.addressTypes addr, l.Moderate (maxTypeDepth + 1) t) :
    let links := fr.links (fr.strip addr)
    let read := l.foldedOffset? (links.map Gep.asRead)
    let known := l.structsAmong (fr.addressTypes addr)
    Layout.Agrees l known (l.gepOffset fr (fr.strip addr))
      (some (read.map fun x => (x.1, Int64.ofInt x.2))) ∧
    (∃ answer, Layout.Agrees l known (l.resolve fr addr) (some answer) ∧
      (answer.isSome ↔ ∃ x ∈ read, 0 ≤ Int64.ofInt x.2 ∧ l.defs.FieldsBelow x.1) ∧
      ∀ r ∈ answer, ∃ x ∈ read, l.Innermost x.1 (Int64.ofInt x.2).toNatClampNeg r) ∧
    ((∀ link ∈ links, ∀ i ∈ link.indices, Text.fitsInt64 (indexNumber i) = true) →
      read = l.foldedOffset? links) := by
  intro links read known
  obtain ⟨h, htame⟩ := Layout.exactly_structsAmong hl hid hmoderate
  have hlinks : ∀ g' ∈ links, l.Tame known (maxTypeDepth + 1) g'.elem := fun g' hg' =>
    htame g'.elem (List.mem_append_left _ (List.mem_map_of_mem hg'))
  have hoffset : Layout.Agrees l known (l.gepOffset fr (fr.strip addr))
      (some (read.map fun x => (x.1, Int64.ofInt x.2))) := Layout.gepOffset_word h hgep hlinks
  refine ⟨hoffset, ?_, ?_⟩
  · rw [Layout.resolve_eq, hgep]
    cases hread : read with
    | none =>
      rw [hread] at hoffset
      exact ⟨none, hoffset.then (.pure none), by simp, by simp⟩
    | some x =>
      rw [hread] at hoffset
      obtain ⟨g', hg', helem⟩ := Layout.elem_of_foldedOffset? hread
      obtain ⟨link, hlink, rfl⟩ := List.mem_map.mp hg'
      have hx : l.Tame known (maxTypeDepth + 1) x.1 := helem ▸ hlinks link hlink
      obtain ⟨answer, hanswer, hiff, hall⟩ := Layout.fieldAt_word h hx (.ofInt x.2)
      exact ⟨answer, hoffset.then hanswer, by simp [hiff], fun r hr => ⟨x, rfl, hall r hr⟩⟩
  · intro hfits
    have hmap : links.map Gep.asRead = links :=
      (List.map_congr_left fun link hlink => Gep.asRead_of_fits (hfits link hlink)).trans
        (List.map_id _)
    exact congrArg l.foldedOffset? hmap

namespace Overlong

def pair : StructTy := ⟨.literal 0, false, false, [.int 32, .ptr 0 (.int 8)]⟩

def layout : Layout := ⟨.ofText "e-m:e-i64:64", []⟩

/-- A step over so many pairs that the offset is no word, then to the second field. -/
def step : Gep :=
  ⟨pair.toTy, .const (.global 0),
    [.const (.int (.int 64) (2 ^ 60 : Nat)), .const (.int (.int 32) (1 : Nat))]⟩

def address : Value :=
  .const (.gep pair.toTy (.global 0) [.int (.int 64) (2 ^ 60 : Nat), .int (.int 32) (1 : Nat)])

theorem distinct : layout.Distinct [pair.toTy] where
  nested := by decide +kernel
  eq_of_id := by
    have hstructs : ∀ st ∈ layout.structsAmong [pair.toTy], st = pair := by
      rintro st ⟨t, ht, hst⟩
      rw [List.mem_singleton] at ht
      subst ht
      exact List.mem_singleton.mp hst
    intro st hst st' hst' _
    rw [hstructs st hst, hstructs st' hst']

end Overlong

/-- The exact offset is eight bytes behind `2 ^ 64`. What is found is the second field of the first
pair. -/
theorem gepOffset_wraps_pair :
    Overlong.layout.foldedOffset? [Overlong.step] = some (Overlong.pair.toTy, 2 ^ 64 + 8) ∧
      (∃ cache, Overlong.layout.gepOffset ⟨Module.empty, none⟩ Overlong.address [] =
        some (some (Overlong.pair.toTy, 8), cache)) ∧
      ∃ r cache, Overlong.layout.resolve ⟨Module.empty, none⟩ Overlong.address [] =
        some (some r, cache) ∧ r.index = 1 := by
  let fr : Frame := ⟨Module.empty, none⟩
  have hgep : fr.gep? (fr.strip Overlong.address) = some Overlong.step := rfl
  have htypes : fr.addressTypes Overlong.address = [Overlong.pair.toTy] := rfl
  have hlinks : fr.links (fr.strip Overlong.address) = [Overlong.step] := rfl
  have hexact : Overlong.layout.foldedOffset? [Overlong.step] =
      some (Overlong.pair.toTy, 2 ^ 64 + 8) := by
    have hoffset : Overlong.layout.exactOffset? Overlong.step.elem Overlong.step.indices =
      some (2 ^ 64 + 8) := by decide +kernel
    rw [Layout.foldedOffset?, hoffset]
    rfl
  obtain ⟨hoffset, ⟨answer, hresolve, -, -⟩, hread⟩ := gepOffset_wraps (l := Overlong.layout) rfl
    hgep (htypes ▸ Overlong.distinct) (by rw [htypes]; decide +kernel)
  rw [hlinks] at hoffset hread
  rw [hread (by decide), hexact] at hoffset
  obtain ⟨cache, hrun, -⟩ := hoffset [] (Layout.sound_nil _ _)
  obtain ⟨cache', hrun', -⟩ := hresolve [] (Layout.sound_nil _ _)
  have hindex : (Overlong.layout.resolve fr Overlong.address []).map
      (fun x => x.1.map FieldRef.index) = some (some 1) := by decide +kernel
  rw [hrun', Option.map_some, Option.some_inj] at hindex
  obtain ⟨r, rfl, hr⟩ := Option.map_eq_some_iff.mp hindex
  exact ⟨hexact, ⟨cache, hrun⟩, r, cache', hrun', hr⟩

end CallTargets
