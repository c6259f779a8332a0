import CallTargets.Proofs.Layout.Session

/-!
# Questions without an end

The alignment of a vector is found by doubling a word until it is not below the size. The word
wraps to zero after 64 doublings, so above `2 ^ 62` bytes the search has no end. Nothing else goes
on for ever: types that contain themselves and types nested too deep are cut off by the depth, and
the lengths of arrays are multiplied, not counted. So a question about a layout has no answer
exactly if, after answers to all that it asks first, it comes to such a search. Where all vectors
are of scalars and of `2 ^ 62` bytes at most, every series of questions comes to its end, whatever
is remembered.
-/
namespace CallTargets

open IR

/-! ### The search for a power of two -/

/-- The word in the search for a power of two, after some doublings. -/
def doubled : Nat → Int64
  | 0 => 1
  | k + 1 => doubled k <<< 1

theorem doubled_eq_ofNat {k : Nat} (hk : k < 63) : doubled k = Int64.ofNat (1 <<< k) := by
  have hall : ∀ k ∈ List.range 63, doubled k = Int64.ofNat (1 <<< k) := by decide +kernel
  exact hall k (List.mem_range.mpr hk)

/-- The lowest bit is shifted out in the end. -/
theorem doubled_of_le {k : Nat} (hk : 64 ≤ k) : doubled k = 0 := by
  induction k, hk using Nat.le_induction with
  | base => decide +kernel
  | succ k _ ih => rw [doubled, ih]; rfl

theorem toInt_doubled {k : Nat} (hk : k < 63) : (doubled k).toInt = 2 ^ k := by
  rw [doubled_eq_ofNat hk, Nat.one_shiftLeft,
    Int64.toInt_ofNat_of_lt (Nat.pow_lt_pow_right one_lt_two hk)]
  push_cast
  rfl

theorem doubled_last_lt_iff {n : Int64} : doubled 62 < n ↔ 2 ^ 62 < n.toInt := by
  rw [Int64.lt_iff_toInt_lt, toInt_doubled (by decide)]

/-- Beyond the largest power of two a size is not reached. -/
theorem doubled_lt {n : Int64} (h : doubled 62 < n) (k : Nat) : doubled k < n := by
  have hn := doubled_last_lt_iff.mp h
  rw [Int64.lt_iff_toInt_lt]
  by_cases hk : k < 63
  · rw [toInt_doubled hk]
    exact lt_of_le_of_lt (pow_le_pow_right₀ (by decide) (by omega)) hn
  · obtain rfl | hk : k = 63 ∨ 64 ≤ k := by omega
    · have hwrapped : (doubled 63).toInt = -2 ^ 63 := by decide +kernel
      omega
    · rw [doubled_of_le hk]
      change (0 : Int) < n.toInt
      omega

theorem forall_doubled_lt_iff {n : Int64} : (∀ k, doubled k < n) ↔ 2 ^ 62 < n.toInt :=
  ⟨fun h => doubled_last_lt_iff.mp (h 62), fun h => doubled_lt (doubled_last_lt_iff.mpr h)⟩

theorem powerOfTwoCeil?_eq (n : Int64) :
    powerOfTwoCeil? n = ((List.range 63).find? fun k => n ≤ doubled k).map doubled := by
  have hwords : (List.range 63).map (fun e => Int64.ofNat (1 <<< e)) =
      (List.range 63).map doubled :=
    List.map_congr_left fun k hk => (doubled_eq_ofNat (List.mem_range.mp hk)).symm
  rw [powerOfTwoCeil?, hwords, List.find?_map]
  rfl

/-- The search has no end exactly if all words are below the size. -/
theorem powerOfTwoCeil?_eq_none_iff {n : Int64} :
    powerOfTwoCeil? n = none ↔ ∀ k, doubled k < n := by
  rw [powerOfTwoCeil?_eq, Option.map_eq_none_iff, List.find?_range_eq_none]
  constructor
  · intro h
    exact doubled_lt (by simpa using h 62 (by decide))
  · intro h k _
    simpa using h k

/-- The search ends with the first word that is not below the size. -/
theorem powerOfTwoCeil?_eq_some_iff {n p : Int64} :
    powerOfTwoCeil? n = some p ↔ ∃ k, doubled k = p ∧ n ≤ p ∧ ∀ j < k, doubled j < n := by
  rw [powerOfTwoCeil?_eq, Option.map_eq_some_iff]
  constructor
  · rintro ⟨k, hk, rfl⟩
    obtain ⟨hle, -, hfirst⟩ := List.find?_range_eq_some.mp hk
    exact ⟨k, rfl, by simpa using hle, fun j hj => by simpa using hfirst j hj⟩
  · rintro ⟨k, rfl, hle, hfirst⟩
    -- A word that is reached is reached before the wrap.
    have hk : k < 63 := by
      by_contra hk
      exact absurd (doubled_lt (hfirst 62 (by omega)) k) (Int64.not_lt.mpr hle)
    exact ⟨k, List.find?_range_eq_some.mpr ⟨by simpa using hle, List.mem_range.mpr hk,
      fun j hj => by simpa using hfirst j hj⟩, rfl⟩

/-- Integers are small, so the search for their alignment ends. -/
theorem powerOfTwoCeil?_intSize_ne_none (bits : UInt64) :
    powerOfTwoCeil? (intSize bits) ≠ none := by
  have hdiv : ((bits + 7) / 8).toNat = (bits + 7).toNat / 8 := UInt64.toNat_div _ _
  have hlt := (bits + 7).toNat_lt
  rw [Ne, powerOfTwoCeil?_eq_none_iff, forall_doubled_lt_iff, intSize, toInt64_eq_ofNat,
    Int64.toInt_ofNat_of_lt (by omega)]
  omega

/-! ### What is asked first -/

/-- The size or the alignment of a type that is followed to a depth. -/
inductive Probe where
  | size (depth : Nat) (t : Ty)
  | align (depth : Nat) (t : Ty)

namespace Probe

def type : Probe → Ty
  | .size _ t | .align _ t => t

/-- An alignment may ask for a size at the same depth. -/
def weight : Probe → Nat
  | .size n _ => 2 * n
  | .align n _ => 2 * n + 1

def ofField (packed : Bool) (n : Nat) (t : Ty) : List Probe :=
  (if packed then [] else [.align n t]) ++ [.size n t, .align n t]

/-- What is asked to lay out a struct. Nothing is if it is remembered or has no body. -/
def ofStruct (cache : LayoutCache) (n : Nat) (st : StructTy) : List Probe :=
  if (cache.get? st.id).isSome || st.incomplete then [] else st.fields.flatMap (ofField st.packed n)

end Probe

namespace Layout

variable {l : Layout} {α β : Type} {cache cache' : LayoutCache}

def probe (l : Layout) : Probe → Query Int64
  | .size n t => (l.measure n).size t
  | .align n t => (l.measure n).align t

def inner (l : Layout) (cache : LayoutCache) : Probe → List Probe
  | .size 0 _ | .align 0 _ => []
  | .size (n + 1) t =>
    match l.defs.struct? t with
    | some st => Probe.ofStruct cache n st
    | none =>
      match l.defs.expand t with
      | .array len e => if (length? len).isSome then [.size n e, .align n e] else []
      | .vector _ len e =>
        if (length? len).isSome then
          match l.defs.expand e with
          | .int _ => []
          | _ => [.size n e]
        else []
      | _ => []
  | .align (n + 1) t =>
    match l.defs.struct? t with
    | some st => Probe.ofStruct cache n st
    | none =>
      match l.defs.expand t with
      | .array _ e => [.align n e]
      | .vector _ _ _ => [.size (n + 1) t]
      | _ => []

/-- What is remembered after some answers, if there are answers to all. -/
def after (l : Layout) (ps : List Probe) (cache : LayoutCache) : Option LayoutCache :=
  ps.foldlM (fun cache p => (l.probe p cache).map Prod.snd) cache

/-- The alignment of a vector whose size no word of the search reaches. -/
def Misses (l : Layout) (cache : LayoutCache) (p : Probe) : Prop :=
  ∃ n t scalable len e size cache', p = .align (n + 1) t ∧
    l.defs.expand t = .vector scalable len e ∧
    l.probe (.size (n + 1) t) cache = some (size, cache') ∧ ∀ k, doubled k < size

/-- An answer has no end: its own search has none, or, once all before it is answered, something
that is asked first. -/
inductive Endless (l : Layout) : LayoutCache → Probe → Prop
  | search {cache : LayoutCache} {p : Probe} (missed : l.Misses cache p) : Endless l cache p
  | inner {cache cache' : LayoutCache} {p q : Probe} {before rest : List Probe}
      (first : l.inner cache p = before ++ q :: rest)
      (answers : l.after before cache = some cache') (endless : Endless l cache' q) :
      Endless l cache p

theorem after_append (ps qs : List Probe) (cache : LayoutCache) :
    l.after (ps ++ qs) cache = (l.after ps cache).bind (l.after qs) :=
  List.foldlM_append

/-- Some answers are missing exactly if one is missing after those before it. -/
theorem after_eq_none_iff {ps : List Probe} : l.after ps cache = none ↔
    ∃ before q rest, ps = before ++ q :: rest ∧
      ∃ cache', l.after before cache = some cache' ∧ l.probe q cache' = none := by
  constructor
  · intro h
    induction ps generalizing cache with
    | nil => cases h
    | cons p ps ih =>
      cases hp : l.probe p cache with
      | none => exact ⟨[], p, ps, rfl, cache, rfl, hp⟩
      | some r =>
        have hrest : l.after ps r.2 = none := by
          simpa [after, hp] using h
        obtain ⟨before, q, rest, rfl, cache', hbefore, hq⟩ := ih hrest
        refine ⟨p :: before, q, rest, rfl, cache', ?_, hq⟩
        simpa [after, hp] using hbefore
  · rintro ⟨before, q, rest, rfl, cache', hbefore, hq⟩
    rw [after_append, hbefore]
    simp [after, hq]

/-- A query remembers what some probes remember, and has no answer if one of them has none. -/
def Asks (l : Layout) (q : Query α) (ps : List Probe) : Prop :=
  ∀ cache, (q cache).map Prod.snd = l.after ps cache

namespace Asks

variable {q : Query α} {f : α → Query β} {ps qs : List Probe}

theorem pure (a : α) : l.Asks (Pure.pure a) [] :=
  fun _ => rfl

theorem probe (p : Probe) : l.Asks (l.probe p) [p] := by
  intro cache
  cases h : l.probe p cache <;> simp [after, h]

theorem bind (hq : l.Asks q ps) (hf : ∀ a, l.Asks (f a) qs) : l.Asks (q >>= f) (ps ++ qs) := by
  intro cache
  change ((q cache).bind fun r => f r.1 r.2).map Prod.snd = _
  rw [after_append, ← hq cache]
  cases q cache with
  | none => rfl
  | some r => exact hf r.1 r.2

theorem eq_none_iff (h : l.Asks q ps) : q cache = none ↔ l.after ps cache = none := by
  rw [← h cache, Option.map_eq_none_iff]

end Asks

/-! ### Answers are missing where something asked first is -/

theorem placeField_asks (n : Nat) (packed : Bool) (p : Placed) (t : Ty) :
    l.Asks (placeField (l.measure n) packed p t) (Probe.ofField packed n t) := by
  have hrest (fieldAlign : Int64) := (Asks.probe (l := l) (.size n t)).bind fun size =>
    (Asks.probe (.align n t)).bind fun align =>
      let start := alignTo p.finish fieldAlign
      .pure (⟨start + alignTo size align, max p.align fieldAlign, start :: p.offsets⟩ : Placed)
  cases packed with
  | true => exact (Asks.pure 1).bind hrest
  | false => exact (Asks.probe (.align n t)).bind hrest

theorem placeFields_asks (n : Nat) (packed : Bool) (p : Placed) (ts : List Ty) :
    l.Asks (ts.foldlM (placeField (l.measure n) packed) p)
      (ts.flatMap (Probe.ofField packed n)) := by
  induction ts generalizing p with
  | nil => exact .pure p
  | cons t ts ih =>
    rw [List.foldlM_cons, List.flatMap_cons]
    exact (placeField_asks n packed p t).bind ih

theorem structWith_eq_none_iff (n : Nat) (st : StructTy) :
    structWith (l.measure n) st cache = none ↔
      l.after (Probe.ofStruct cache n st) cache = none := by
  unfold Probe.ofStruct
  cases hget : cache.get? st.id with
  | some known =>
    rw [structWith_of_known hget]
    simp [after]
  | none =>
    rw [structWith_of_new hget]
    cases st.incomplete with
    | true => simp [after]
    | false =>
      simp only [Bool.false_eq_true, if_false, Option.isSome_none, Bool.or_self,
        Option.map_eq_none_iff]
      exact (placeFields_asks n st.packed _ st.fields).eq_none_iff

theorem map_eq_none_iff {q : Query α} (f : α → β) :
    (do return f (← q) : Query β) cache = none ↔ q cache = none := by
  change ((q cache).bind fun r => some (f r.1, r.2)) = none ↔ _
  cases q cache <;> simp

theorem probe_size_eq_none_iff (n : Nat) (t : Ty) : l.probe (.size (n + 1) t) cache = none ↔
    l.after (l.inner cache (.size (n + 1) t)) cache = none := by
  change l.sizeWith (l.measure n) t cache = none ↔ _
  cases hst : l.defs.struct? t with
  | some st =>
    simp only [sizeWith, inner, hst]
    rw [map_eq_none_iff]
    exact structWith_eq_none_iff n st
  | none =>
    cases hexp : l.defs.expand t with
    | array len e =>
      cases hlen : length? len with
      | none =>
        simp only [sizeWith, inner, hst, hexp, hlen]
        exact (Asks.pure 0).eq_none_iff
      | some k =>
        simp only [sizeWith, inner, hst, hexp, hlen, Option.isSome_some, if_true]
        exact ((Asks.probe (.size n e)).bind fun _ =>
          (Asks.probe (.align n e)).bind fun _ => .pure _).eq_none_iff
    | vector scalable len e =>
      cases hlen : length? len with
      | none =>
        simp only [sizeWith, inner, hst, hexp, hlen]
        exact (Asks.pure 0).eq_none_iff
      | some k =>
        simp only [sizeWith, inner, hst, hexp, hlen, Option.isSome_some, if_true]
        cases l.defs.expand e with
        | int bits => exact (Asks.pure _).eq_none_iff
        | _ => exact ((Asks.probe (.size n e)).bind fun _ => .pure _).eq_none_iff
    | _ =>
      simp only [sizeWith, inner, hst, hexp]
      exact (Asks.pure _).eq_none_iff

/-- A vector is measured first, then the search begins. -/
theorem probe_align_vector {n : Nat} {t e : Ty} {scalable : Bool} {len : UInt64}
    (h : l.defs.expand t = .vector scalable len e) (cache : LayoutCache) :
    l.probe (.align (n + 1) t) cache = (l.probe (.size (n + 1) t) cache).bind fun r =>
      (powerOfTwoCeil? r.1).map fun p => (p, r.2) := by
  change l.alignWith (l.measure n) t cache = _
  simp only [alignWith, TypeDefs.struct?_of_vector h, h]
  change (l.probe (.size (n + 1) t) cache).bind
    (fun r => (liftM (powerOfTwoCeil? r.1) : Query Int64) r.2) = _
  congr 1
  funext r
  cases powerOfTwoCeil? r.1 <;> rfl

theorem probe_align_vector_eq_none_iff {n : Nat} {t e : Ty} {scalable : Bool} {len : UInt64}
    (h : l.defs.expand t = .vector scalable len e) : l.probe (.align (n + 1) t) cache = none ↔
      l.after (l.inner cache (.align (n + 1) t)) cache = none ∨
        l.Misses cache (.align (n + 1) t) := by
  have hinner : l.inner cache (.align (n + 1) t) = [.size (n + 1) t] := by
    simp only [inner, TypeDefs.struct?_of_vector h, h]
  rw [probe_align_vector h, hinner, ← (Asks.probe (.size (n + 1) t)).eq_none_iff]
  constructor
  · intro hnone
    cases hsize : l.probe (.size (n + 1) t) cache with
    | none => exact .inl rfl
    | some r =>
      rw [hsize, Option.bind_some, Option.map_eq_none_iff, powerOfTwoCeil?_eq_none_iff] at hnone
      exact .inr ⟨n, t, scalable, len, e, r.1, r.2, rfl, h, hsize, hnone⟩
  · rintro (hsize | ⟨_, _, -, -, -, size, cache', heq, -, hsize, hmissed⟩)
    · rw [hsize, Option.bind_none]
    · cases heq
      rw [hsize, Option.bind_some, powerOfTwoCeil?_eq_none_iff.mpr hmissed]
      rfl

/-- An alignment that needs no search is missing where something asked first is. -/
theorem probe_align_eq_none_iff {n : Nat} {t : Ty}
    (h : ∀ scalable len e, l.defs.expand t ≠ .vector scalable len e) :
    l.probe (.align (n + 1) t) cache = none ↔
      l.after (l.inner cache (.align (n + 1) t)) cache = none := by
  change l.alignWith (l.measure n) t cache = none ↔ _
  cases hst : l.defs.struct? t with
  | some st =>
    simp only [alignWith, inner, hst]
    rw [map_eq_none_iff]
    exact structWith_eq_none_iff n st
  | none =>
    cases hexp : l.defs.expand t with
    | array len e =>
      simp only [alignWith, inner, hst, hexp]
      exact (Asks.probe (.align n e)).eq_none_iff
    | vector scalable len e => exact absurd hexp (h scalable len e)
    | int bits =>
      simp only [alignWith, inner, hst, hexp]
      cases l.data.intAlign.get? bits with
      | some a => exact (Asks.pure a).eq_none_iff
      | none =>
        obtain ⟨p, hp⟩ := Option.ne_none_iff_exists'.mp (powerOfTwoCeil?_intSize_ne_none bits)
        dsimp only
        rw [hp]
        exact (Asks.pure _).eq_none_iff
    | _ =>
      simp only [alignWith, inner, hst, hexp]
      exact (Asks.pure _).eq_none_iff

/-! ### Answers are missing where a search has no end -/

theorem mem_ofStruct {n : Nat} {st : StructTy} {q : Probe} (h : q ∈ Probe.ofStruct cache n st) :
    ∃ t ∈ st.fields, q = .size n t ∨ q = .align n t := by
  unfold Probe.ofStruct at h
  split at h
  · cases h
  · obtain ⟨t, ht, hq⟩ := List.mem_flatMap.mp h
    refine ⟨t, ht, ?_⟩
    cases hp : st.packed <;> simp only [Probe.ofField, hp, Bool.false_eq_true, if_false, if_true,
      List.nil_append, List.mem_cons, List.mem_append, List.not_mem_nil, or_false] at hq <;> tauto

def Below (l : Layout) (n : Nat) (t : Ty) (q : Probe) : Prop :=
  ∃ u ∈ l.defs.parts t, q = .size n u ∨ q = .align n u

/-- What is asked first is about the parts of a type one level down, but for the size of a
vector. -/
theorem mem_inner {p q : Probe} (h : q ∈ l.inner cache p) : ∃ n t,
    (p = .size (n + 1) t ∨ p = .align (n + 1) t) ∧
      (l.Below n t q ∨ p = .align (n + 1) t ∧ q = .size (n + 1) t) := by
  have hstruct {n : Nat} {t : Ty} {st : StructTy} (hst : l.defs.struct? t = some st)
      (hq : q ∈ Probe.ofStruct cache n st) : l.Below n t q := by
    obtain ⟨u, hu, hq⟩ := mem_ofStruct hq
    exact ⟨u, by rwa [TypeDefs.parts_of_struct hst], hq⟩
  match p with
  | .size 0 t | .align 0 t => cases h
  | .size (n + 1) t =>
    refine ⟨n, t, .inl rfl, .inl ?_⟩
    cases hst : l.defs.struct? t with
    | some st => exact hstruct hst (by simpa only [inner, hst] using h)
    | none =>
      simp only [inner, hst] at h
      split at h
      · next len e hexp =>
        split at h
        · have he : e ∈ l.defs.parts t := TypeDefs.mem_parts_of_array hexp
          exact ⟨e, he, by simpa using h⟩
        · cases h
      · next scalable len e hexp =>
        have he : e ∈ l.defs.parts t := by simp [TypeDefs.parts_of_vector hexp]
        split at h
        · split at h
          · cases h
          · exact ⟨e, he, .inl (by simpa using h)⟩
        · cases h
      · cases h
  | .align (n + 1) t =>
    refine ⟨n, t, .inr rfl, ?_⟩
    cases hst : l.defs.struct? t with
    | some st => exact .inl (hstruct hst (by simpa only [inner, hst] using h))
    | none =>
      simp only [inner, hst] at h
      split at h
      · next len e hexp =>
        exact .inl ⟨e, TypeDefs.mem_parts_of_array hexp, .inr (by simpa using h)⟩
      · exact .inr ⟨rfl, by simpa using h⟩
      · cases h

theorem weight_lt_of_mem_inner {p q : Probe} (h : q ∈ l.inner cache p) : q.weight < p.weight := by
  obtain ⟨n, t, hp, ⟨u, -, hq⟩ | ⟨rfl, rfl⟩⟩ := mem_inner h
  · rcases hp with rfl | rfl <;> rcases hq with rfl | rfl <;> simp only [Probe.weight] <;> omega
  · exact Nat.lt_succ_self _

/-- What is asked first is about the type itself or a part of it. -/
theorem type_of_mem_inner {p q : Probe} (h : q ∈ l.inner cache p) :
    q.type = p.type ∨ q.type ∈ l.defs.parts p.type := by
  obtain ⟨n, t, hp, ⟨u, hu, hq⟩ | ⟨rfl, rfl⟩⟩ := mem_inner h
  · rcases hp with rfl | rfl <;> rcases hq with rfl | rfl <;> exact .inr hu
  · exact .inl rfl

theorem probe_eq_none_iff (p : Probe) :
    l.probe p cache = none ↔ l.after (l.inner cache p) cache = none ∨ l.Misses cache p := by
  match p with
  | .size 0 t | .align 0 t =>
    refine (Asks.pure _).eq_none_iff.trans (or_iff_left ?_).symm
    rintro ⟨_, _, -, -, -, -, -, heq, -⟩
    cases heq
  | .size (n + 1) t =>
    refine (probe_size_eq_none_iff n t).trans (or_iff_left ?_).symm
    rintro ⟨_, _, -, -, -, -, -, heq, -⟩
    cases heq
  | .align (n + 1) t =>
    by_cases hvector : ∃ scalable len e, l.defs.expand t = .vector scalable len e
    · obtain ⟨scalable, len, e, hexp⟩ := hvector
      exact probe_align_vector_eq_none_iff hexp
    · refine (probe_align_eq_none_iff fun scalable len e hexp => ?_).trans (or_iff_left ?_).symm
      · exact hvector ⟨scalable, len, e, hexp⟩
      · rintro ⟨_, _, scalable, len, e, -, -, heq, hexp, -⟩
        cases heq
        exact hvector ⟨scalable, len, e, hexp⟩

/-- An answer is missing exactly if it has no end. -/
theorem probe_eq_none_iff_endless (cache : LayoutCache) (p : Probe) :
    l.probe p cache = none ↔ l.Endless cache p := by
  constructor
  · -- What is asked first has a smaller weight.
    induction hw : p.weight using Nat.strong_induction_on generalizing p cache with
    | _ w ih =>
    subst hw
    intro h
    rcases (probe_eq_none_iff p).mp h with hnone | hmissed
    · obtain ⟨before, q, rest, hinner, cache', hbefore, hq⟩ := after_eq_none_iff.mp hnone
      have hmem : q ∈ l.inner cache p := by simp [hinner]
      exact .inner hinner hbefore (ih q.weight (weight_lt_of_mem_inner hmem) cache' q rfl hq)
    · exact .search hmissed
  · intro h
    induction h with
    | search hmissed => exact (probe_eq_none_iff _).mpr (.inr hmissed)
    | inner hinner hbefore _ ih =>
      refine (probe_eq_none_iff _).mpr (.inl ?_)
      exact after_eq_none_iff.mpr ⟨_, _, _, hinner, _, hbefore, ih⟩

/-! ### Vectors of scalars -/

def scalarSize? (l : Layout) (t : Ty) : Option Int64 :=
  match l.defs.expand t with
  | .int bits => some (intSize bits)
  | .float k => some (floatSize k)
  | .ptr _ _ => some l.data.pointerSize
  | .mmx => some 8
  | .array _ _ | .vector _ _ _ | .struct _ _ _ | .incomplete _ => none
  | _ => some 0

/-- The bytes of a vector whose elements have no parts. Integers are packed bit by bit. -/
def vectorBytes? (l : Layout) (len : UInt64) (e : Ty) : Option Int64 :=
  match length? len with
  | none => some 0
  | some n =>
    match l.defs.expand e with
    | .int bits => some ((n * bits.toInt64 + 7) / 8)
    | _ => (l.scalarSize? e).map (n * ·)

theorem sizeWith_of_scalar {t : Ty} {size : Int64} (h : l.scalarSize? t = some size)
    (below : Measure) : l.sizeWith below t = pure size := by
  unfold scalarSize? at h
  cases hexp : l.defs.expand t with
  | array | vector | struct | incomplete => simp [hexp] at h
  | _ =>
    rw [hexp] at h
    cases h
    simp only [sizeWith, TypeDefs.struct?, Ty.struct?, hexp]

theorem sizeWith_vector {t e : Ty} {scalable : Bool} {len : UInt64}
    (h : l.defs.expand t = .vector scalable len e) {k width : Int64} (hlen : length? len = some k)
    (hint : ∀ bits, l.defs.expand e ≠ .int bits) (below : Measure)
    (hsize : below.size e = pure width) : l.sizeWith below t = pure (k * width) := by
  simp only [sizeWith, TypeDefs.struct?_of_vector h, h, hlen, hsize, pure_bind]

/-- A vector of scalars has its bytes, unless it stands so deep that its elements have none. -/
theorem probe_size_vector {t e : Ty} {scalable : Bool} {len : UInt64} {bytes : Int64}
    (h : l.defs.expand t = .vector scalable len e) (hbytes : l.vectorBytes? len e = some bytes) :
    (∀ n, l.probe (.size (n + 2) t) = pure bytes) ∧
      (l.probe (.size 1 t) = pure bytes ∨ l.probe (.size 1 t) = pure 0) := by
  have hplain (hall : ∀ below, l.sizeWith below t = pure bytes) :
      (∀ n, l.probe (.size (n + 2) t) = pure bytes) ∧
        (l.probe (.size 1 t) = pure bytes ∨ l.probe (.size 1 t) = pure 0) :=
    ⟨fun n => hall (l.measure (n + 1)), .inl (hall (l.measure 0))⟩
  unfold vectorBytes? at hbytes
  cases hlen : length? len with
  | none =>
    rw [hlen] at hbytes
    cases hbytes
    exact hplain fun below => by simp only [sizeWith, TypeDefs.struct?_of_vector h, h, hlen]
  | some k =>
    simp only [hlen] at hbytes
    split at hbytes
    · next bits hexp =>
      cases hbytes
      exact hplain fun below => by simp only [sizeWith, TypeDefs.struct?_of_vector h, h, hlen, hexp]
    · next hint =>
      obtain ⟨width, hwidth, rfl⟩ := Option.map_eq_some_iff.mp hbytes
      refine ⟨fun n => ?_, .inr ?_⟩
      · exact sizeWith_vector h hlen hint (l.measure (n + 1))
          (sizeWith_of_scalar hwidth (l.measure n))
      · have hzero : (l.measure 0).size e = pure 0 := rfl
        have hnone := sizeWith_vector h hlen hint (l.measure 0) hzero
        rwa [Int64.mul_zero] at hnone

/-- The alignment of a vector of scalars has no end exactly if no power of two holds its bytes. -/
theorem align_vector_eq_none_iff {t e : Ty} {scalable : Bool} {len : UInt64} {bytes : Int64}
    (h : l.defs.expand t = .vector scalable len e) (hbytes : l.vectorBytes? len e = some bytes) :
    l.align t cache = none ↔ 2 ^ 62 < bytes.toInt := by
  change l.probe (.align (maxTypeDepth + 1) t) cache = none ↔ _
  have hsize : l.probe (.size (maxTypeDepth + 1) t) = pure bytes :=
    (probe_size_vector h hbytes).1 63
  rw [probe_align_vector h, hsize]
  change ((powerOfTwoCeil? bytes).map fun p => (p, cache)) = none ↔ _
  rw [Option.map_eq_none_iff, powerOfTwoCeil?_eq_none_iff, forall_doubled_lt_iff]

/-- Types whose vectors are of scalars and can be aligned, with all their parts. -/
structure Aligned (l : Layout) (T : Ty → Prop) : Prop where
  part : ∀ t u, T t → u ∈ l.defs.parts t → T u
  vector : ∀ t scalable len e, T t → l.defs.expand t = .vector scalable len e →
    ∃ bytes, l.vectorBytes? len e = some bytes ∧ bytes.toInt ≤ 2 ^ 62

theorem Aligned.not_endless {T : Ty → Prop} (hT : l.Aligned T) {p : Probe} (hp : T p.type) :
    ¬ l.Endless cache p := by
  intro h
  induction h with
  | search hmissed =>
    obtain ⟨n, t, scalable, len, e, size, cache', rfl, hexp, hsize, hmissed⟩ := hmissed
    obtain ⟨bytes, hbytes, hle⟩ := hT.vector t scalable len e hp hexp
    have hlarge := forall_doubled_lt_iff.mp hmissed
    have hanswer : l.probe (.size (n + 1) t) = pure bytes ∨ l.probe (.size (n + 1) t) = pure 0 := by
      obtain ⟨hdeep, hflat⟩ := probe_size_vector hexp hbytes
      cases n with
      | zero => exact hflat
      | succ n => exact .inl (hdeep n)
    rcases hanswer with hanswer | hanswer <;> rw [hanswer] at hsize <;> cases hsize
    · omega
    · exact absurd hlarge (by decide)
  | @inner cache _ p q before rest hinner _ _ ih =>
    have hmem : q ∈ l.inner cache p := by simp [hinner]
    rcases type_of_mem_inner hmem with htype | htype
    · exact ih (htype ▸ hp)
    · exact ih (hT.part _ _ hp htype)

theorem Aligned.exists_answer {T : Ty → Prop} (hT : l.Aligned T) {p : Probe} (hp : T p.type)
    (cache : LayoutCache) : ∃ a cache', l.probe p cache = some (a, cache') := by
  have hsome := (probe_eq_none_iff_endless cache p).not.mpr (hT.not_endless hp)
  obtain ⟨r, hr⟩ := Option.ne_none_iff_exists'.mp hsome
  exact ⟨r.1, r.2, hr⟩

/-- Field offsets are missing exactly if the size of the struct is. -/
theorem fieldOffsets_eq_none_iff {t : Ty} {st : StructTy} (h : l.defs.struct? t = some st) :
    l.fieldOffsets st cache = none ↔ l.size t cache = none := by
  have hsize : l.size t = (do return (← structWith (l.measure maxTypeDepth) st).size) := by
    change l.sizeWith (l.measure maxTypeDepth) t = _
    simp only [sizeWith, h]
  rw [hsize, fieldOffsets, map_eq_none_iff, map_eq_none_iff]

/-- A judgement on queries: from whatever is remembered there is an answer. -/
def ending : Judgement where
  Holds q P := ∀ cache, ∃ a cache', q cache = some (a, cache') ∧ P a
  pure {_ _ a} ha cache := ⟨a, cache, rfl, ha⟩
  bind {_ _ _ _ _ _} hq hf cache := by
    obtain ⟨a, between, hfirst, ha⟩ := hq cache
    obtain ⟨b, cache', hsecond, hb⟩ := hf a ha between
    exact ⟨b, cache', Option.bind_eq_some_iff.mpr ⟨(a, between), hfirst, hsecond⟩, hb⟩

theorem Aligned.measured {T : Ty → Prop} (hT : l.Aligned T) : ending.Measured l T where
  part := hT.part
  size t ht cache := by
    obtain ⟨a, cache', hrun⟩ := hT.exists_answer (p := .size (maxTypeDepth + 1) t) ht cache
    exact ⟨a, cache', hrun, trivial⟩
  align t ht cache := by
    obtain ⟨a, cache', hrun⟩ := hT.exists_answer (p := .align (maxTypeDepth + 1) t) ht cache
    exact ⟨a, cache', hrun, trivial⟩
  offsets t st ht hst cache := by
    obtain ⟨a, cache', hrun⟩ := hT.exists_answer (p := .size (maxTypeDepth + 1) t) ht cache
    have hsome : l.fieldOffsets st cache ≠ none := by
      rw [Ne, fieldOffsets_eq_none_iff hst]
      exact Option.ne_none_iff_exists'.mpr ⟨_, hrun⟩
    obtain ⟨r, hr⟩ := Option.ne_none_iff_exists'.mp hsome
    exact ⟨r.1, r.2, hr, trivial⟩

theorem alloc_eq_none_iff (t : Ty) : l.alloc t cache = none ↔ l.size t cache = none ∨
    ∃ size cache', l.size t cache = some (size, cache') ∧ l.align t cache' = none := by
  change ((l.size t cache).bind fun r => (l.align t r.2).bind fun s =>
    some (alignTo r.1 s.1, s.2)) = none ↔ _
  cases l.size t cache with
  | none => simp
  | some r => cases halign : l.align t r.2 <;> simp [halign, Prod.ext_iff]

end Layout

/-- The search for a power of two goes on for ever exactly beyond `2 ^ 62`. A question about a size,
an alignment, the distance of array elements or field offsets has no answer exactly if it comes to
such a search, and the alignment of a vector of scalars exactly if the vector is that large. Among
types whose vectors are of scalars and smaller, every series of questions comes to its end, whatever
is remembered. -/
theorem questions_end_iff_searches_end (l : Layout) :
    (∀ n : Int64, (powerOfTwoCeil? n = none ↔ ∀ k, doubled k < n) ∧
      (∀ p, powerOfTwoCeil? n = some p ↔ ∃ k, doubled k = p ∧ n ≤ p ∧ ∀ j < k, doubled j < n) ∧
      ((∀ k, doubled k < n) ↔ 2 ^ 62 < n.toInt)) ∧
    (∀ t cache,
      (l.size t cache = none ↔ l.Endless cache (.size (maxTypeDepth + 1) t)) ∧
      (l.align t cache = none ↔ l.Endless cache (.align (maxTypeDepth + 1) t)) ∧
      (l.alloc t cache = none ↔ l.Endless cache (.size (maxTypeDepth + 1) t) ∨
        ∃ size cache', l.size t cache = some (size, cache') ∧
          l.Endless cache' (.align (maxTypeDepth + 1) t)) ∧
      ∀ st, l.defs.struct? t = some st → (l.fieldOffsets st cache = none ↔
        l.Endless cache (.size (maxTypeDepth + 1) t))) ∧
    (∀ t scalable len e bytes, l.defs.expand t = .vector scalable len e →
      l.vectorBytes? len e = some bytes →
        ∀ cache, l.align t cache = none ↔ 2 ^ 62 < bytes.toInt) ∧
    ∀ T, l.Aligned T → ∀ questions : List Question, (∀ q ∈ questions, ∀ t ∈ q.types, T t) →
      ∀ cache, ∃ answers cache', l.session questions cache = some (answers, cache') := by
  refine ⟨fun n => ⟨powerOfTwoCeil?_eq_none_iff, fun p => powerOfTwoCeil?_eq_some_iff,
    forall_doubled_lt_iff⟩, fun t cache => ?_, ?_, ?_⟩
  · have hsize (cache : LayoutCache) :=
      Layout.probe_eq_none_iff_endless (l := l) cache (.size (maxTypeDepth + 1) t)
    have halign (cache : LayoutCache) :=
      Layout.probe_eq_none_iff_endless (l := l) cache (.align (maxTypeDepth + 1) t)
    refine ⟨hsize cache, halign cache, ?_, fun st hst => ?_⟩
    · simp only [Layout.alloc_eq_none_iff, ← hsize, ← halign]
      rfl
    · exact (Layout.fieldOffsets_eq_none_iff hst).trans (hsize cache)
  · intro t scalable len e bytes hexp hbytes cache
    exact Layout.align_vector_eq_none_iff hexp hbytes
  · intro T hT questions hquestions cache
    obtain ⟨answers, cache', hrun, -⟩ := hT.measured.session hquestions cache
    exact ⟨answers, cache', hrun⟩

namespace Looped

def wide : Ty := .vector false 1152921504606846976 (.float .single)

def layout : Layout :=
  ⟨.standard, [("node", .struct (.named "node") false [.int 32, .named "node", wide])]⟩

def nodes : Ty := .array 18446744073709551615 (.named "node")

def types : List Ty := [.named "node", nodes, wide, .int 32, .float .single]

theorem aligned : layout.Aligned (· ∈ types) where
  part t u ht hu := by
    simp only [types, List.mem_cons, List.not_mem_nil, or_false] at ht
    obtain rfl | rfl | rfl | rfl | rfl := ht
    · change u ∈ [.int 32, .named "node", wide] at hu
      simp only [List.mem_cons, List.not_mem_nil, or_false] at hu
      obtain rfl | rfl | rfl := hu <;> simp [types]
    · change u ∈ [.named "node"] at hu
      simp [types, List.mem_singleton.mp hu]
    · change u ∈ [.float .single] at hu
      simp [types, List.mem_singleton.mp hu]
    · cases hu
    · cases hu
  vector t scalable len e ht hexp := by
    simp only [types, List.mem_cons, List.not_mem_nil, or_false] at ht
    obtain rfl | rfl | rfl | rfl | rfl := ht <;> cases hexp
    exact ⟨.ofNat (2 ^ 62), by decide +kernel, by decide +kernel⟩

/-- One more element. -/
def tooWide : Ty := .vector false 1152921504606846977 (.float .single)

end Looped

open Looped in
theorem questions_end_iff_searches_end_looped :
    (∃ answers cache, layout.session [.alloc nodes, .fieldOffsets (.named "node"), .align wide] [] =
      some (answers, cache)) ∧ layout.align tooWide [] = none := by
  obtain ⟨-, -, hvector, hall⟩ := questions_end_iff_searches_end layout
  constructor
  · refine hall (· ∈ types) aligned _ ?_ []
    simp [Question.types, types]
  · exact (hvector tooWide false _ _ (.ofNat (2 ^ 62 + 4)) rfl (by decide +kernel) []).mpr
      (by decide +kernel)

end CallTargets
