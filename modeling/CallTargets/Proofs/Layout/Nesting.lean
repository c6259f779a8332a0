import CallTargets.Proofs.Layout.Endless
import CallTargets.Proofs.Layout.Wrapping

/-!
# Nested address computations

The source of an address computation may be a constant address computation in its turn, casts apart.
Such a chain is folded link by link, from the outermost to the innermost, and no more than sixteen
links are looked at. The offset that comes out is the sum of the offsets of these links, each as it
is found for the link alone, and the type is that of the last one. Folding fails if the indices of
one of these links, as they are read, do not lead through its type, and for no other reason.

That the indices fit can be told from the types alone. So nothing here depends on what is remembered
of layouts or on the depth of types. Their sizes matter in one way only: where a vector among the
types is too large to be aligned, there may be no answer.
-/
namespace CallTargets

open IR

/-! ### Casts and chains -/

namespace IR.Frame

/-- A value leads to another through a number of pointer casts. -/
inductive Casts (fr : Frame) : Nat → Value → Value → Prop
  | none {v : Value} : fr.Casts 0 v v
  | const {n : Nat} {kind : Cast} {c : Const} {t : Ty} {w : Value} (pointer : kind.isPointerCast)
      (rest : fr.Casts n (.const c) w) : fr.Casts (n + 1) (.const (.cast kind c t)) w
  | inst {n : Nat} {v src w : Value} {i : Inst} {kind : Cast} {t : Ty} (named : fr.inst? v = some i)
      (cast : i.op = .cast kind src t) (pointer : kind.isPointerCast) (rest : fr.Casts n src w) :
      fr.Casts (n + 1) v w

/-- The source of an address computation is a constant address computation, casts apart. -/
def Source (fr : Frame) (g : Gep) (c : Const) : Prop :=
  (∃ n ≤ maxCasts, fr.Casts n g.src (.const c)) ∧ c.gep?.isSome

/-- An address computation and all those it is nested in, outermost first. -/
inductive Chain (fr : Frame) : Value → List Gep → Prop
  | last {v : Value} {g : Gep} (gep : fr.gep? v = some g) (ends : ∀ c, ¬ fr.Source g c) :
      fr.Chain v [g]
  | link {v : Value} {g : Gep} {c : Const} {rest : List Gep} (gep : fr.gep? v = some g)
      (source : fr.Source g c) (inner : fr.Chain (.const c) rest) : fr.Chain v (g :: rest)

variable {fr : Frame}

theorem casts_strip (n : Nat) (c : Const) :
    ∃ k ≤ n, fr.Casts k (.const c) (.const (c.strip n)) := by
  induction n generalizing c with
  | zero => exact ⟨0, le_refl 0, .none⟩
  | succ n ih =>
    unfold Const.strip
    split
    · next m kind c t hm =>
      cases hm
      by_cases hkind : kind.isPointerCast = true
      · rw [if_pos hkind]
        obtain ⟨k, hk, hcasts⟩ := ih c
        exact ⟨k + 1, Nat.succ_le_succ hk, .const hkind hcasts⟩
      · rw [if_neg hkind]
        exact ⟨0, Nat.zero_le _, .none⟩
    · exact ⟨0, Nat.zero_le _, .none⟩

/-- Removing casts leads through casts, and not through more than are to be removed. -/
theorem casts_stripWithin (n : Nat) (v : Value) : ∃ k ≤ n, fr.Casts k v (fr.stripWithin n v) := by
  induction n generalizing v with
  | zero =>
    cases v with
    | const c => exact casts_strip 0 c
    | _ => exact ⟨0, le_refl 0, .none⟩
  | succ n ih =>
    cases v with
    | const c => exact casts_strip (n + 1) c
    | _ =>
      rw [stripWithin]
      · split
        · next kind src t hop =>
          obtain ⟨i, hi, hcast⟩ := Option.map_eq_some_iff.mp hop
          by_cases hkind : kind.isPointerCast = true
          · rw [if_pos hkind]
            obtain ⟨k, hk, hcasts⟩ := ih src
            exact ⟨k + 1, Nat.succ_le_succ hk, .inst hi hcast hkind hcasts⟩
          · rw [if_neg hkind]
            exact ⟨0, Nat.zero_le _, .none⟩
        · exact ⟨0, Nat.zero_le _, .none⟩
      · simp

theorem strip_of_gep {c : Const} (h : c.gep?.isSome) (n : Nat) : c.strip n = c := by
  cases c with
  | gep elem src indices => cases n <;> rfl
  | _ => cases h

/-- Casts in front of an address computation are removed, if there are not too many. -/
theorem Casts.stripWithin_eq {k n : Nat} {v w : Value} (h : fr.Casts k v w) (hn : k ≤ n) {c : Const}
    (hw : w = .const c) (hgep : c.gep?.isSome) : fr.stripWithin n v = .const c := by
  induction h generalizing n with
  | none => rw [hw, stripWithin, strip_of_gep hgep]
  | @const k kind c' t w hkind _ ih =>
    obtain ⟨n, rfl⟩ : ∃ m, n = m + 1 := ⟨n - 1, by omega⟩
    have hrest := ih (Nat.le_of_succ_le_succ hn) hw
    rw [stripWithin] at hrest ⊢
    rw [Const.strip, if_pos hkind, hrest]
  | @inst k v src w i kind t hi hcast hkind _ ih =>
    obtain ⟨n, rfl⟩ : ∃ m, n = m + 1 := ⟨n - 1, by omega⟩
    cases v with
    | inst block index =>
      rw [stripWithin, hi, Option.map_some, hcast]
      · simpa [hkind] using ih (Nat.le_of_succ_le_succ hn) hw
      · simp
    | _ => cases hi

theorem inner?_eq_some_iff {g inner : Gep} :
    fr.inner? g = some inner ↔ ∃ c, fr.Source g c ∧ c.gep? = some inner := by
  constructor
  · intro h
    obtain ⟨n, hn, hcasts⟩ := fr.casts_stripWithin maxCasts g.src
    unfold inner? strip at h
    split at h
    · next c hc =>
      rw [hc] at hcasts
      exact ⟨c, ⟨⟨n, hn, hcasts⟩, by simp [h]⟩, h⟩
    · cases h
  · rintro ⟨c, ⟨⟨n, hn, hcasts⟩, hgep⟩, hinner⟩
    rw [inner?, strip, hcasts.stripWithin_eq hn rfl hgep]
    exact hinner

theorem inner?_eq_none_iff {g : Gep} : fr.inner? g = none ↔ ∀ c, ¬ fr.Source g c := by
  rw [Option.eq_none_iff_forall_ne_some]
  constructor
  · intro h c hsource
    obtain ⟨inner, hinner⟩ := Option.isSome_iff_exists.mp hsource.2
    exact h inner (inner?_eq_some_iff.mpr ⟨c, hsource, hinner⟩)
  · intro h inner hinner
    obtain ⟨c, hsource, -⟩ := inner?_eq_some_iff.mp hinner
    exact h c hsource

theorem Chain.take_eq {v : Value} {links : List Gep} (h : fr.Chain v links) (n : Nat) :
    ∃ g, fr.gep? v = some g ∧ fr.chain n g = links.take (n + 1) := by
  induction h generalizing n with
  | @last v g hgep hends =>
    apply Exists.intro g
    cases n with
    | zero => simp [hgep, chain]
    | succ n => simp [hgep, chain, inner?_eq_none_iff.mpr hends]
  | @link v g c rest hgep hsource _ ih =>
    apply Exists.intro g
    cases n with
    | zero => simp [hgep, chain]
    | succ n =>
      obtain ⟨inner, hinner, hrest⟩ := ih n
      have hnext : fr.inner? g = some inner := inner?_eq_some_iff.mpr ⟨c, hsource, hinner⟩
      simp [hgep, chain, hnext, hrest]

theorem Chain.links_eq {v : Value} {links : List Gep} (h : fr.Chain v links) :
    fr.links v = links.take maxGeps := by
  obtain ⟨g, hgep, hchain⟩ := h.take_eq (maxGeps - 1)
  rw [Frame.links, hgep]
  exact hchain

theorem Casts.sizeOf_le {k : Nat} {v w : Value} (h : fr.Casts k v w) {c d : Const}
    (hv : v = .const c) (hw : w = .const d) : sizeOf d ≤ sizeOf c := by
  induction h generalizing c with
  | none =>
    subst hv
    cases hw
    exact le_refl _
  | const _ _ ih =>
    cases hv
    have hle := ih rfl hw
    simp only [Const.cast.sizeOf_spec]
    omega
  | inst hi _ _ _ _ =>
    subst hv
    cases hi

/-- Every constant address computation has a chain: the constants inside one another get smaller. -/
theorem exists_chain_const (c : Const) (h : c.gep?.isSome) :
    ∃ links, fr.Chain (.const c) links := by
  induction hsize : sizeOf c using Nat.strong_induction_on generalizing c with
  | _ size ih =>
    cases c with
    | gep elem src indices =>
      by_cases hsource : ∃ d, fr.Source ⟨elem, .const src, indices.map Value.const⟩ d
      · obtain ⟨d, hd⟩ := hsource
        obtain ⟨⟨n, hn, hcasts⟩, hgep⟩ := hd
        have hle := hcasts.sizeOf_le rfl rfl
        have hlt : sizeOf d < size := by
          simp only [← hsize, Const.gep.sizeOf_spec]
          omega
        obtain ⟨rest, hrest⟩ := ih (sizeOf d) hlt d hgep rfl
        exact ⟨_, .link rfl ⟨⟨n, hn, hcasts⟩, hgep⟩ hrest⟩
      · exact ⟨_, .last rfl (by simpa using hsource)⟩
    | _ => cases h

/-- The address computations are the values that a chain starts with. -/
theorem exists_chain_iff {v : Value} : (∃ links, fr.Chain v links) ↔ ∃ g, fr.gep? v = some g := by
  constructor
  · rintro ⟨links, h⟩
    obtain ⟨g, hgep, -⟩ := h.take_eq 0
    exact ⟨g, hgep⟩
  · rintro ⟨g, hgep⟩
    by_cases hsource : ∃ c, fr.Source g c
    · obtain ⟨c, hc⟩ := hsource
      obtain ⟨rest, hrest⟩ := fr.exists_chain_const c hc.2
      exact ⟨_, .link hgep hc hrest⟩
    · exact ⟨_, .last hgep (by simpa using hsource)⟩

end IR.Frame

/-! ### Indices that fit -/

/-- Indices lead from a type to a part of it. A struct has to have the field; an array or a vector
has elements at every index; nothing else has parts. -/
inductive IR.TypeDefs.Walks (defs : TypeDefs) : Ty → List Value → Prop
  | here {t : Ty} : defs.Walks t []
  | field {t : Ty} {st : StructTy} {member : Ty} {i : Value} {indices : List Value}
      (struct : defs.struct? t = some st) (low : 0 ≤ indexNumber i)
      (found : st.fields[(indexNumber i).toNat]? = some member)
      (rest : defs.Walks member indices) : defs.Walks t (i :: indices)
  | array {t e : Ty} {len : UInt64} {i : Value} {indices : List Value}
      (array : defs.expand t = .array len e) (rest : defs.Walks e indices) :
      defs.Walks t (i :: indices)
  | vector {t e : Ty} {scalable : Bool} {len : UInt64} {i : Value} {indices : List Value}
      (vector : defs.expand t = .vector scalable len e) (rest : defs.Walks e indices) :
      defs.Walks t (i :: indices)

/-- The indices of an address computation fit its type. The first one steps over whole objects. -/
def IR.Gep.Fits (defs : TypeDefs) (g : Gep) : Prop := defs.Walks g.elem g.indices.tail

namespace IR.TypeDefs

variable {defs : TypeDefs} {t : Ty} {i : Value} {indices : List Value}

theorem walks_struct_iff {st : StructTy} (h : defs.struct? t = some st) :
    defs.Walks t (i :: indices) ↔ 0 ≤ indexNumber i ∧
      ∃ member, st.fields[(indexNumber i).toNat]? = some member ∧ defs.Walks member indices := by
  constructor
  · intro hwalks
    cases hwalks with
    | @field _ st' member _ _ struct low found rest =>
      rw [h] at struct
      cases struct
      exact ⟨low, member, found, rest⟩
    | array array rest => simp [struct?_of_array array] at h
    | vector vector rest => simp [struct?_of_vector vector] at h
  · rintro ⟨low, member, found, rest⟩
    exact .field h low found rest

theorem walks_array_iff {len : UInt64} {e : Ty} (h : defs.expand t = .array len e) :
    defs.Walks t (i :: indices) ↔ defs.Walks e indices := by
  constructor
  · intro hwalks
    cases hwalks with
    | field struct low found rest => simp [struct?_of_array h] at struct
    | array array rest =>
      rw [h] at array
      cases array
      exact rest
    | vector vector rest =>
      rw [h] at vector
      cases vector
  · exact .array h

theorem walks_vector_iff {scalable : Bool} {len : UInt64} {e : Ty}
    (h : defs.expand t = .vector scalable len e) :
    defs.Walks t (i :: indices) ↔ defs.Walks e indices := by
  constructor
  · intro hwalks
    cases hwalks with
    | field struct low found rest => simp [struct?_of_vector h] at struct
    | array array rest =>
      rw [h] at array
      cases array
    | vector vector rest =>
      rw [h] at vector
      cases vector
      exact rest
  · exact .vector h

end IR.TypeDefs

namespace Layout

abbrev answers : Judgement := .keeping fun _ => True

theorem answers_any {α : Type} (q : Query α) : answers.Holds q fun _ => True :=
  fun _ _ _ _ _ => ⟨trivial, trivial⟩

/-- What changes no answer of a query changes nothing. -/
theorem map_of_answers {α : Type} {q : Query α} {f : α → α} (h : answers.Holds q fun a => f a = a) :
    f <$> q = q := by
  funext cache
  have hcache := h cache trivial
  change (q cache).bind (fun p => some (f p.1, p.2)) = q cache
  cases hq : q cache with
  | none => rfl
  | some p => simp [(hcache p.1 p.2 hq).1]

theorem run_map {α β : Type} (f : α → β) {q : Query α} {a : α} {cache cache' : LayoutCache}
    (h : q cache = some (a, cache')) :
    (do return f (← q) : Query β) cache = some (f a, cache') := by
  change (q cache).bind (fun p => some (f p.1, p.2)) = _
  rw [h]
  rfl

variable (l : Layout)

/-- Whether there is an offset inside an object can be told from its type. -/
theorem innerOffset_answers (t : Ty) (indices : List Value) (offset : Int64) :
    answers.Holds (l.innerOffset t indices offset) fun a =>
      a.isSome ↔ l.defs.Walks t (indices.map wordIndex) := by
  induction indices generalizing t offset with
  | nil => exact answers.pure (by simp [TypeDefs.Walks.here])
  | cons i is ih =>
    have hneg : indexValue i < 0 ↔ (indexValue i).toInt < 0 := Int64.lt_iff_toInt_lt
    rw [innerOffset, List.map_cons]
    cases hst : l.defs.struct? t with
    | some st =>
      dsimp only
      rw [TypeDefs.walks_struct_iff hst, indexNumber_wordIndex]
      split
      · next hlow => exact answers.pure (by simp [Int.not_le.mpr (hneg.mp hlow)])
      · next hlow =>
        split
        · next hnone =>
          rw [hnone]
          exact answers.pure (by simp)
        · next member hfound =>
          rw [hfound]
          refine answers.bind (answers_any _) fun offsets _ => answers.imp (ih member _) ?_
          intro a ha
          simpa [Int.not_lt.mp (hneg.not.mp hlow)] using ha
    | none =>
      dsimp only
      split
      · next len e hexp =>
        rw [TypeDefs.walks_array_iff hexp]
        exact answers.bind (answers_any _) fun size _ => ih e _
      · next scalable len e hexp =>
        rw [TypeDefs.walks_vector_iff hexp]
        exact answers.bind (answers_any _) fun size _ => ih e _
      · next harray hvector =>
        apply answers.pure
        simp only [Option.isSome_none, Bool.false_eq_true, false_iff]
        intro hwalks
        cases hwalks with
        | field struct _ _ _ => simp [hst] at struct
        | array array _ => exact harray _ _ array
        | vector vector _ => exact hvector _ _ _ vector

theorem indexedOffset_answers (g : Gep) :
    answers.Holds (l.indexedOffset g.elem g.indices) fun a => a.isSome ↔ g.asRead.Fits l.defs := by
  unfold Gep.Fits Gep.asRead
  cases g.indices with
  | nil => exact answers.pure (by simp [TypeDefs.Walks.here])
  | cons i is => exact answers.bind (answers_any _) fun size _ => l.innerOffset_answers _ _ _

/-- The offset of an address computation for itself, whatever its source is. -/
def offsetOf (g : Gep) : Query Int64 := do
  return (← l.indexedOffset g.elem g.indices).getD 0

theorem indexedOffset_of_fits {g : Gep} (h : g.asRead.Fits l.defs) :
    l.indexedOffset g.elem g.indices = some <$> l.offsetOf g := by
  have hsome : answers.Holds (l.indexedOffset g.elem g.indices) fun a => some (a.getD 0) = a := by
    apply answers.imp (l.indexedOffset_answers g)
    intro a ha
    obtain ⟨o, rfl⟩ := Option.isSome_iff_exists.mp (ha.mpr h)
    rfl
  rw [← map_of_answers hsome]
  simp [offsetOf]

theorem indexedOffset_of_not_fits {g : Gep} (h : ¬ g.asRead.Fits l.defs) :
    l.indexedOffset g.elem g.indices = (fun _ => none) <$> l.offsetOf g := by
  have hnone : answers.Holds (l.indexedOffset g.elem g.indices) fun a => none = a := by
    apply answers.imp (l.indexedOffset_answers g)
    intro a ha
    rw [← ha, Option.not_isSome_iff_eq_none] at h
    exact h.symm
  rw [← map_of_answers hnone]
  simp [offsetOf]

/-! ### Folding a chain -/

theorem foldGeps_of_fits (fr : Frame) (n : Nat) {g last : Gep}
    (hlast : (fr.chain n g).getLast? = some last)
    (h : ∀ link ∈ fr.chain n g, link.asRead.Fits l.defs) (before : Int64) :
    l.foldGeps fr n g before = do
      let offsets ← (fr.chain n g).mapM l.offsetOf
      return some (last.elem, before + offsets.sum) := by
  induction n generalizing g before with
  | zero =>
    have hg : g = last := by simpa [Frame.chain] using hlast
    subst hg
    rw [foldGeps_zero, l.indexedOffset_of_fits (h g (by simp [Frame.chain]))]
    simp [Frame.chain]
  | succ n ih =>
    rw [foldGeps_succ, l.indexedOffset_of_fits (h g (by simp [Frame.chain]))]
    cases hinner : fr.inner? g with
    | none =>
      have hg : g = last := by simpa [Frame.chain, hinner] using hlast
      subst hg
      simp [Frame.chain, hinner]
    | some inner =>
      have hchain : fr.chain (n + 1) g = g :: fr.chain n inner := by simp [Frame.chain, hinner]
      rw [hchain] at hlast h ⊢
      have hrest : (fr.chain n inner).getLast? = some last := by
        obtain ⟨rest, hcons⟩ := chain_eq_cons fr n inner
        rwa [hcons, List.getLast?_cons_cons, ← hcons] at hlast
      have hfold := ih hrest fun link hlink => h link (List.mem_cons_of_mem g hlink)
      simp [hfold, Int64.add_assoc]

theorem foldGeps_of_not_fits (fr : Frame) (n : Nat) {g bad : Gep} {good rest : List Gep}
    (hchain : fr.chain n g = good ++ bad :: rest) (hgood : ∀ link ∈ good, link.asRead.Fits l.defs)
    (hbad : ¬ bad.asRead.Fits l.defs) (before : Int64) :
    l.foldGeps fr n g before = do
      let _ ← (good ++ [bad]).mapM l.offsetOf
      return none := by
  induction n generalizing g good before with
  | zero =>
    cases good with
    | nil =>
      simp only [Frame.chain, List.nil_append, List.cons.injEq] at hchain
      rw [foldGeps_zero, hchain.1, l.indexedOffset_of_not_fits hbad]
      simp
    | cons a good => simp [Frame.chain] at hchain
  | succ n ih =>
    rw [foldGeps_succ]
    cases good with
    | nil =>
      have hg : g = bad := by
        simp only [Frame.chain, List.nil_append, List.cons.injEq] at hchain
        exact hchain.1
      rw [hg, l.indexedOffset_of_not_fits hbad]
      simp
    | cons a good =>
      simp only [Frame.chain, List.cons_append, List.cons.injEq] at hchain
      obtain ⟨rfl, hrest⟩ := hchain
      rw [l.indexedOffset_of_fits (hgood g List.mem_cons_self)]
      cases hinner : fr.inner? g with
      | none => simp [hinner] at hrest
      | some inner =>
        rw [hinner, Option.map_some, Option.getD_some] at hrest
        have hfold := ih hrest fun link hlink => hgood link (List.mem_cons_of_mem g hlink)
        simp [hfold]

/-- Folding succeeds exactly if all indices fit. -/
theorem foldGeps_answers (fr : Frame) (n : Nat) (g : Gep) (before : Int64) :
    answers.Holds (l.foldGeps fr n g before) fun a =>
      a.isSome ↔ ∀ link ∈ fr.chain n g, link.asRead.Fits l.defs := by
  induction n generalizing g before with
  | zero =>
    rw [foldGeps_zero]
    refine answers.bind (l.indexedOffset_answers g) fun a ha => ?_
    cases a with
    | none => exact answers.pure (by simpa [Frame.chain] using ha)
    | some offset => exact answers.pure (by simpa [Frame.chain] using ha)
  | succ n ih =>
    rw [foldGeps_succ]
    refine answers.bind (l.indexedOffset_answers g) fun a ha => ?_
    cases a with
    | none => exact answers.pure (by simp_all [Frame.chain])
    | some offset =>
      dsimp only
      cases hinner : fr.inner? g with
      | none => exact answers.pure (by simpa [Frame.chain, hinner] using ha)
      | some inner =>
        refine answers.imp (ih inner _) fun b hb => ?_
        rw [hb]
        simp_all [Frame.chain]

/-! ### Folding as a loop over values -/

/-- How folding comes to an end: the value at hand is no address computation, its indices do not
fit, its source is no constant address computation, or enough links have been folded. -/
inductive Exit where
  | noGep
  | misfit
  | source
  | bound
deriving DecidableEq

/-- The round in which folding ends, how it ends, and the type and offset it comes to. -/
structure Folded where
  depth : Nat
  exit : Exit
  found : Option (Ty × Int64)

/-- Folds for some rounds, and looks in each of them what the value at hand is. -/
def rounds (fr : Frame) : Nat → Nat → Value → Option (Ty × Int64) → Query Folded
  | 0, depth, _, found => return ⟨depth, .bound, found⟩
  | n + 1, depth, v, found =>
    match fr.gep? v with
    | none => return ⟨depth, .noGep, if depth = 0 then none else found⟩
    | some g => do
      match ← l.indexedOffset g.elem g.indices with
      | none => return ⟨depth, .misfit, none⟩
      | some offset =>
        let total := (found.map Prod.snd).getD 0 + offset
        if (fr.inner? g).isSome then
          rounds fr n (depth + 1) (fr.strip g.src) (some (g.elem, total))
        else return ⟨depth, .source, some (g.elem, total)⟩

theorem gep?_strip {fr : Frame} {g inner : Gep} (h : fr.inner? g = some inner) :
    fr.gep? (fr.strip g.src) = some inner := by
  unfold Frame.inner? at h
  split at h
  · next c hc =>
    rw [hc]
    exact h
  · cases h

theorem found_rounds (fr : Frame) (n depth : Nat) {v : Value} {g : Gep} (h : fr.gep? v = some g)
    (found : Option (Ty × Int64)) :
    Folded.found <$> l.rounds fr (n + 1) depth v found =
      l.foldGeps fr n g ((found.map Prod.snd).getD 0) := by
  induction n generalizing depth v g found with
  | zero =>
    rw [rounds, h, foldGeps_zero]
    dsimp only
    rw [map_bind]
    congr 1
    funext a
    cases a with
    | none => simp
    | some offset => by_cases hinner : (fr.inner? g).isSome <;> simp [hinner, rounds]
  | succ n ih =>
    rw [rounds, h, foldGeps_succ]
    dsimp only
    rw [map_bind]
    congr 1
    funext a
    cases a with
    | none => simp
    | some offset =>
      cases hinner : fr.inner? g with
      | none => simp
      | some inner =>
        dsimp only
        rw [if_pos Option.isSome_some]
        exact ih (depth + 1) (gep?_strip hinner) _

/-- From a value that is an address computation on, only address computations are met. -/
theorem rounds_exit (fr : Frame) (n depth : Nat) {v : Value} (h : (fr.gep? v).isSome)
    (found : Option (Ty × Int64)) :
    answers.Holds (l.rounds fr n depth v found) fun r => r.exit ≠ .noGep := by
  induction n generalizing depth v found with
  | zero => exact answers.pure (by simp)
  | succ n ih =>
    obtain ⟨g, hg⟩ := Option.isSome_iff_exists.mp h
    rw [rounds, hg]
    refine answers.bind (answers_any _) fun a _ => ?_
    cases a with
    | none => exact answers.pure (by simp)
    | some offset =>
      dsimp only
      split
      · next hinner =>
        obtain ⟨inner, hinner⟩ := Option.isSome_iff_exists.mp hinner
        apply ih
        simp [gep?_strip hinner]
      · exact answers.pure (by simp)

theorem gepOffset_eq_rounds (fr : Frame) (v : Value) :
    l.gepOffset fr v = Folded.found <$> l.rounds fr maxGeps 0 v none := by
  cases hgep : fr.gep? v with
  | none => simp [gepOffset, hgep, rounds, maxGeps]
  | some g =>
    rw [gepOffset, hgep]
    exact (l.found_rounds fr (maxGeps - 1) 0 hgep none).symm

theorem rounds_noGep (fr : Frame) (v : Value) :
    answers.Holds (l.rounds fr maxGeps 0 v none) fun r =>
      r.exit = .noGep → r.depth = 0 ∧ fr.gep? v = none := by
  cases hgep : fr.gep? v with
  | none =>
    have hround : l.rounds fr maxGeps 0 v none = pure ⟨0, .noGep, none⟩ := by
      simp [rounds, maxGeps, hgep]
    rw [hround]
    exact answers.pure (by simp)
  | some g =>
    apply answers.imp (l.rounds_exit fr maxGeps 0 (by simp [hgep]) none)
    intro r hr hexit
    exact absurd hexit hr

end Layout

/-- A value is an address computation exactly if a chain starts with it. Of every chain the first
sixteen links are folded. If the indices of all these fit as they are read, the answer is the type
of the last of them and the sum of their offsets, which are asked for one after another; if some do
not fit, the answer is none, and nothing is asked behind the first of these. There is an answer if
the vectors in the types of these links can be aligned; then it is the expected one, if all indices
are words. Where folding is done as a loop that looks at a value in each round, it comes to a value
that is no address computation in the first round only. -/
theorem gepOffset_folds_chain (l : Layout) (fr : Frame) (v : Value) :
    ((∃ links, fr.Chain v links) ↔ ∃ g, fr.gep? v = some g) ∧
    (∀ links, fr.Chain v links →
      (∀ cache found cache', l.gepOffset fr v cache = some (found, cache') →
        (found.isSome ↔ ∀ link ∈ links.take maxGeps, link.asRead.Fits l.defs)) ∧
      (∃ last, (links.take maxGeps).getLast? = some last ∧
        ((∀ link ∈ links.take maxGeps, link.asRead.Fits l.defs) →
          l.gepOffset fr v = do
            let offsets ← (links.take maxGeps).mapM l.offsetOf
            return some (last.elem, offsets.sum))) ∧
      (∀ good bad rest, links.take maxGeps = good ++ bad :: rest →
        (∀ link ∈ good, link.asRead.Fits l.defs) → ¬ bad.asRead.Fits l.defs →
          l.gepOffset fr v = do
            let _ ← (good ++ [bad]).mapM l.offsetOf
            return none) ∧
      ∀ T, l.Aligned T → (∀ link ∈ links.take maxGeps, T link.elem) →
        ∀ cache, ∃ found cache', l.gepOffset fr v cache = some (found, cache') ∧
          ((∀ link ∈ links.take maxGeps, ∀ i ∈ link.indices,
              Text.fitsInt64 (indexNumber i) = true) →
            (found.isSome ↔ ∀ link ∈ links.take maxGeps, link.Fits l.defs))) ∧
    l.gepOffset fr v = Layout.Folded.found <$> l.rounds fr maxGeps 0 v none ∧
    ∀ cache r cache', l.rounds fr maxGeps 0 v none cache = some (r, cache') → r.exit = .noGep →
      r.depth = 0 ∧ fr.gep? v = none := by
  refine ⟨Frame.exists_chain_iff, ?_, l.gepOffset_eq_rounds fr v, ?_⟩
  · intro links hlinks
    obtain ⟨g, hgep, hchain⟩ := hlinks.take_eq (maxGeps - 1)
    change fr.chain (maxGeps - 1) g = links.take maxGeps at hchain
    have hfold : l.gepOffset fr v = l.foldGeps fr (maxGeps - 1) g 0 := by
      rw [Layout.gepOffset, hgep]
    have hiff : ∀ cache found cache', l.gepOffset fr v cache = some (found, cache') →
        (found.isSome ↔ ∀ link ∈ links.take maxGeps, link.asRead.Fits l.defs) := by
      rw [hfold, ← hchain]
      intro cache found cache' hrun
      exact (l.foldGeps_answers fr _ g 0 cache trivial found cache' hrun).1
    refine ⟨hiff, ?_, ?_, ?_⟩
    · rw [hfold, ← hchain]
      obtain ⟨rest, hcons⟩ := Layout.chain_eq_cons fr (maxGeps - 1) g
      have hne : fr.chain (maxGeps - 1) g ≠ [] := by simp [hcons]
      have hlast := List.getLast?_eq_getLast_of_ne_nil hne
      refine ⟨_, hlast, fun hfits => ?_⟩
      rw [l.foldGeps_of_fits fr _ hlast hfits]
      simp
    · rw [hfold, ← hchain]
      intro good bad rest hsplit hgood hbad
      exact l.foldGeps_of_not_fits fr _ hsplit hgood hbad 0
    · intro T hT htypes cache
      rw [← hlinks.links_eq] at htypes
      obtain ⟨found, cache', hrun, -⟩ := hT.measured.gepOffset htypes cache
      refine ⟨found, cache', hrun, fun hwords => (hiff cache found cache' hrun).trans ?_⟩
      apply forall₂_congr
      intro link hlink
      rw [Gep.asRead_of_fits (hwords link hlink)]
  · intro cache r cache' hrun
    exact (l.rounds_noGep fr v cache trivial r cache' hrun).1

namespace Tower

def pair : Ty := .struct (.literal 0) false [.int 64, .int 64]

def heavy : Ty :=
  .struct (.literal 1) false [.vector false 1152921504606846977 (.float .single), .int 64]

def layout : Layout := ⟨.ofText "e-m:e-i64:64", []⟩

/-- Address computations around each other with a cast between any two, each to a field of a
pair. -/
def address (t : Ty) : List Int → Const
  | [] => .global 0
  | i :: is => .gep t (.cast .bit (address t is) (.ptr 0 t)) [.int (.int 32) 0, .int (.int 32) i]

def links (t : Ty) : List Int → List Gep
  | [] => []
  | i :: is =>
    ⟨t, .const (.cast .bit (address t is) (.ptr 0 t)),
      [.const (.int (.int 32) 0), .const (.int (.int 32) i)]⟩ :: links t is

theorem chain (fr : Frame) (t : Ty) (i : Int) (is : List Int) :
    fr.Chain (.const (address t (i :: is))) (links t (i :: is)) := by
  induction is generalizing i with
  | nil =>
    apply Frame.Chain.last rfl
    apply Frame.inner?_eq_none_iff.mp
    rfl
  | cons j is ih => exact .link rfl ⟨⟨1, by decide, .const rfl .none⟩, rfl⟩ (ih j)

theorem struct?_pair :
    layout.defs.struct? pair = some ⟨.literal 0, false, false, [.int 64, .int 64]⟩ := rfl

theorem fits {is : List Int} {n : Nat} (h : ∀ i ∈ is.take n, i = 1) :
    ∀ link ∈ (links pair is).take n, link.asRead.Fits layout.defs := by
  induction is generalizing n with
  | nil => simp [links]
  | cons i is ih =>
    cases n with
    | zero => simp
    | succ n =>
      simp only [List.take_succ_cons, List.forall_mem_cons] at h
      simp only [links, List.take_succ_cons, List.forall_mem_cons]
      obtain ⟨rfl, hrest⟩ := h
      exact ⟨.field struct?_pair (by decide) rfl .here, ih hrest⟩

theorem aligned : layout.Aligned fun t => t = pair ∨ t = .int 64 where
  part := by
    rintro t u (rfl | rfl) hu
    · change u ∈ [.int 64, .int 64] at hu
      simp_all
    · cases hu
  vector := by rintro t scalable len e (rfl | rfl) hexp <;> cases hexp

def fields : List Int := .replicate 16 1 ++ .replicate 4 7

/-- The index of a field that no pair has. It is no word, so it is read as zero. -/
def beyond : List Int := [2 ^ 64]

theorem beyond_misfits : ∀ link ∈ links pair beyond,
    ¬ link.Fits layout.defs ∧ link.asRead.Fits layout.defs := by
  simp only [beyond, links, List.forall_mem_cons, List.not_mem_nil, false_imp_iff, implies_true,
    and_true]
  constructor
  · intro hfits
    obtain ⟨-, member, hmember, -⟩ := (TypeDefs.walks_struct_iff struct?_pair).mp hfits
    simp [indexNumber] at hmember
  · exact .field struct?_pair (by decide) rfl .here

end Tower

open Tower in
/-- Of twenty links the last four are not looked at, so it does not matter that they do not fit. A
field number beyond all words is taken for the first field. Behind a vector that cannot be aligned
there is a field, but no answer. -/
theorem gepOffset_folds_chain_tower :
    let fr : Frame := ⟨Module.empty, none⟩
    (fr.Chain (.const (address pair fields)) (links pair fields) ∧
      (links pair fields).length = 20 ∧
      ∃ cache, layout.gepOffset fr (.const (address pair fields)) [] =
        some (some (pair, 128), cache)) ∧
    (fr.Chain (.const (address pair beyond)) (links pair beyond) ∧
      (∀ link ∈ links pair beyond, ¬ link.Fits layout.defs) ∧
      ∃ found cache, layout.gepOffset fr (.const (address pair beyond)) [] =
        some (some found, cache)) ∧
    (fr.Chain (.const (address heavy [1])) (links heavy [1]) ∧
      (∀ link ∈ links heavy [1], link.Fits layout.defs) ∧
      layout.gepOffset fr (.const (address heavy [1])) [] = none) := by
  intro fr
  refine ⟨?_, ?_, ?_⟩
  · have hfields : fields = 1 :: (.replicate 15 1 ++ .replicate 4 7) := rfl
    have hchain : fr.Chain (.const (address pair fields)) (links pair fields) := by
      rw [hfields]
      exact chain fr pair 1 _
    obtain ⟨-, hfolds, -⟩ := gepOffset_folds_chain layout fr (.const (address pair fields))
    obtain ⟨-, ⟨last, hlast, hsum⟩, -⟩ := hfolds _ hchain
    have helem : last.elem = pair := by
      have hpair : ((links pair fields).take maxGeps).getLast?.map Gep.elem = some pair := rfl
      rw [hlast] at hpair
      exact Option.some_inj.mp hpair
    have hoffsets : (((links pair fields).take maxGeps).mapM layout.offsetOf []).map
        Prod.fst = some (.replicate 16 8) := by decide +kernel
    obtain ⟨⟨offsets, cache⟩, hrun, rfl⟩ := Option.map_eq_some_iff.mp hoffsets
    have hfound := Layout.run_map (fun offsets => some (last.elem, offsets.sum)) hrun
    have htotal : (List.replicate 16 (8 : Int64)).sum = 128 := by decide
    rw [← hsum (fits (by decide)), helem, htotal] at hfound
    exact ⟨hchain, rfl, cache, hfound⟩
  · have hchain := chain fr pair (2 ^ 64) []
    obtain ⟨-, hfolds, -⟩ := gepOffset_folds_chain layout fr (.const (address pair beyond))
    obtain ⟨hiff, -, -, hends⟩ := hfolds _ hchain
    obtain ⟨found, cache, hrun, -⟩ := hends _ aligned (by simp [links, maxGeps]) []
    have hsome : found.isSome :=
      (hiff [] found cache hrun).mpr fun link hlink => (beyond_misfits link hlink).2
    obtain ⟨found, rfl⟩ := Option.isSome_iff_exists.mp hsome
    exact ⟨hchain, fun link hlink => (beyond_misfits link hlink).1, found, cache, hrun⟩
  · have hstruct : layout.defs.struct? heavy = some ⟨.literal 1, false, false,
      [.vector false 1152921504606846977 (.float .single), .int 64]⟩ := rfl
    refine ⟨chain fr heavy 1 [], ?_, Option.isNone_iff_eq_none.mp (by decide +kernel)⟩
    simp only [links, List.forall_mem_cons, List.not_mem_nil, false_imp_iff, implies_true,
      and_true]
    exact .field hstruct (by decide) rfl .here

end CallTargets
