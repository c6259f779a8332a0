import CallTargets.Layout.Address
import Mathlib.Tactic

/-!
# Remembered layouts

Sizes, alignments and struct layouts are given here once more as plain functions, which remember
nothing. For types that are nested no deeper than they are followed, a query gives the plain answer
whatever is remembered, provided that all of it are plain answers and that no two structs share an
identity.
-/
namespace CallTargets

open IR

namespace IR.TypeDefs

variable {defs : TypeDefs} {P Q : Ty → Prop}

/-! ### Types inside types -/

def parts (defs : TypeDefs) (t : Ty) : List Ty :=
  match defs.expand t with
  | .struct _ _ fields => fields
  | .array _ e | .vector _ _ e => [e]
  | _ => []

/-- Less than `n` levels of types are nested by value in a type, and `P` holds of all of them. -/
inductive Within (defs : TypeDefs) (P : Ty → Prop) : Nat → Ty → Prop
  | intro {n : Nat} {t : Ty} (here : P t) (parts : ∀ u ∈ defs.parts t, Within defs P n u) :
      Within defs P (n + 1) t

/-- The structs that a type contains by value, itself included, down to a depth. -/
def structsIn (defs : TypeDefs) : Nat → Ty → List StructTy
  | 0, _ => []
  | n + 1, t => (defs.struct? t).toList ++ (defs.parts t).flatMap (structsIn defs n)

theorem struct?_of_array {t e : Ty} {len : UInt64} (h : defs.expand t = .array len e) :
    defs.struct? t = none := by
  simp only [struct?, Ty.struct?, h]

theorem struct?_of_vector {t e : Ty} {scalable : Bool} {len : UInt64}
    (h : defs.expand t = .vector scalable len e) : defs.struct? t = none := by
  simp only [struct?, Ty.struct?, h]

theorem parts_of_struct {t : Ty} {st : StructTy} (h : defs.struct? t = some st) :
    defs.parts t = st.fields := by
  unfold struct? Ty.struct? at h
  split at h
  · next heq =>
    cases h
    simp [parts, heq]
  · next heq =>
    cases h
    simp [parts, heq]
  · cases h

theorem parts_of_array {t e : Ty} {len : UInt64} (h : defs.expand t = .array len e) :
    defs.parts t = [e] := by
  simp [parts, h]

theorem parts_of_vector {t e : Ty} {scalable : Bool} {len : UInt64}
    (h : defs.expand t = .vector scalable len e) : defs.parts t = [e] := by
  simp [parts, h]

theorem mem_parts_of_field {t field : Ty} {st : StructTy} {i : Nat}
    (h : defs.struct? t = some st) (hfield : st.fields[i]? = some field) :
    field ∈ defs.parts t := by
  rw [parts_of_struct h]
  exact List.mem_of_getElem? hfield

theorem mem_parts_of_array {t e : Ty} {len : UInt64} (h : defs.expand t = .array len e) :
    e ∈ defs.parts t := by
  rw [parts_of_array h]
  exact List.mem_singleton_self e

namespace Within

theorem exists_succ {n : Nat} {t : Ty} (h : defs.Within P n t) : ∃ k, n = k + 1 := by
  cases h
  exact ⟨_, rfl⟩

theorem here {n : Nat} {t : Ty} (h : defs.Within P n t) : P t := by
  cases h with
  | intro here _ => exact here

theorem part {n : Nat} {t u : Ty} (h : defs.Within P (n + 1) t) (hu : u ∈ defs.parts t) :
    defs.Within P n u := by
  cases h with
  | intro _ parts => exact parts u hu

theorem mono {n m : Nat} {t : Ty} (h : defs.Within P n t) (hnm : n ≤ m) : defs.Within P m t := by
  induction h generalizing m with
  | intro here _ ih =>
    obtain ⟨k, rfl⟩ := Nat.exists_eq_add_of_lt hnm
    exact .intro here fun u hu => ih u hu (by omega)

theorem imp {n : Nat} {t : Ty} (h : defs.Within P n t) (hPQ : ∀ t, P t → Q t) :
    defs.Within Q n t := by
  induction h with
  | intro here _ ih => exact .intro (hPQ _ here) ih

/-- The structs inside a type may be named in what holds of its parts. -/
theorem structs {n : Nat} {t : Ty} (h : defs.Within P n t) {S : Set StructTy}
    (hS : ∀ st ∈ defs.structsIn n t, st ∈ S) :
    defs.Within (fun u => P u ∧ ∀ st ∈ defs.struct? u, st ∈ S) n t := by
  induction h with
  | intro here _ ih =>
    refine .intro ⟨here, ?_⟩ ?_
    · intro st hst
      exact hS st (List.mem_append_left _ (Option.mem_toList.mpr hst))
    · intro u hu
      refine ih u hu fun st hst => hS st ?_
      exact List.mem_append_right _ (List.mem_flatMap.mpr ⟨u, hu, hst⟩)

/-- What holds inside a type holds inside the fields of the structs that it contains. -/
theorem of_structsIn {n : Nat} {t : Ty} (h : defs.Within P (n + 1) t) {st : StructTy}
    (hst : st ∈ defs.structsIn (n + 1) t) : ∀ u ∈ st.fields, defs.Within P n u := by
  induction n generalizing t with
  | zero =>
    rcases List.mem_append.mp hst with hst | hst
    · intro u hu
      rw [← parts_of_struct (Option.mem_toList.mp hst)] at hu
      exact h.part hu
    · simp [structsIn] at hst
  | succ n ih =>
    rcases List.mem_append.mp hst with hst | hst
    · intro u hu
      rw [← parts_of_struct (Option.mem_toList.mp hst)] at hu
      exact h.part hu
    · obtain ⟨v, hv, hst⟩ := List.mem_flatMap.mp hst
      exact fun u hu => (ih (h.part hv) hst u hu).mono n.le_succ

end Within

instance decidableWithin (defs : TypeDefs) (P : Ty → Prop) [DecidablePred P] :
    (n : Nat) → (t : Ty) → Decidable (defs.Within P n t)
  | 0, _ => isFalse nofun
  | n + 1, t =>
    haveI := decidableWithin defs P n
    decidable_of_iff (P t ∧ ∀ u ∈ defs.parts t, defs.Within P n u)
      ⟨fun h => .intro h.1 h.2, fun h => ⟨h.here, fun _ hu => h.part hu⟩⟩

end IR.TypeDefs

namespace Layout

/-! ### Plain answers -/

/-- Sizes and alignments, if there are any. -/
structure Gauge where
  size : Ty → Option Int64
  align : Ty → Option Int64

def place? (below : Gauge) (packed : Bool) (p : Placed) (t : Ty) : Option Placed := do
  let fieldAlign ← if packed then pure 1 else below.align t
  let start := alignTo p.finish fieldAlign
  let size ← below.size t
  let align ← below.align t
  return ⟨start + alignTo size align, max p.align fieldAlign, start :: p.offsets⟩

def layOut? (below : Gauge) (st : StructTy) : Option StructLayout :=
  if st.incomplete then some ⟨[], 0, 1⟩
  else do
    let p ← st.fields.foldlM (place? below st.packed) ⟨0, 1, []⟩
    return ⟨p.offsets.reverse, alignTo p.finish p.align, p.align⟩

/-- The size of a type whose parts are measured by `below`. -/
def sizeBy? (l : Layout) (below : Gauge) (t : Ty) : Option Int64 :=
  match l.defs.struct? t with
  | some st => (layOut? below st).map StructLayout.size
  | none =>
    match l.defs.expand t with
    | .int bits => some (intSize bits)
    | .float k => some (floatSize k)
    | .ptr _ _ => some l.data.pointerSize
    | .mmx => some 8
    | .array len e =>
      match length? len with
      | some n => do
        let size ← below.size e
        let align ← below.align e
        return n * alignTo size align
      | none => some 0
    | .vector _ len e =>
      match length? len with
      | some n =>
        match l.defs.expand e with
        | .int bits => some ((n * bits.toInt64 + 7) / 8)
        | _ => do return n * (← below.size e)
      | none => some 0
    | _ => some 0

/-- The alignment of a type whose parts are measured by `below`. -/
def alignBy? (l : Layout) (below : Gauge) (t : Ty) : Option Int64 :=
  match l.defs.struct? t with
  | some st => (layOut? below st).map StructLayout.align
  | none =>
    match l.defs.expand t with
    | .int bits =>
      match l.data.intAlign.get? bits with
      | some a => some a
      | none => do return min (← powerOfTwoCeil? (intSize bits)) 16
    | .float k => some (floatAlign k)
    | .ptr _ _ => some l.data.pointerAlign
    | .mmx => some 8
    | .array _ e => below.align e
    | .vector _ _ _ => l.sizeBy? below t >>= powerOfTwoCeil?
    | _ => some 1

/-- Sizes and alignments, descending at most `n` levels. -/
def gauge (l : Layout) : Nat → Gauge
  | 0 => ⟨fun _ => some 0, fun _ => some 1⟩
  | n + 1 => ⟨l.sizeBy? (l.gauge n), l.alignBy? (l.gauge n)⟩

def Gauge.SameAt (g g' : Gauge) (t : Ty) : Prop := g.size t = g'.size t ∧ g.align t = g'.align t

theorem layOut?_congr {g g' : Gauge} {st : StructTy} (h : ∀ t ∈ st.fields, g.SameAt g' t) :
    layOut? g st = layOut? g' st := by
  have hfold (ts : List Ty) (hts : ∀ t ∈ ts, g.SameAt g' t) (p : Placed) :
      ts.foldlM (place? g st.packed) p = ts.foldlM (place? g' st.packed) p := by
    induction ts generalizing p with
    | nil => rfl
    | cons t ts ih =>
      obtain ⟨hsize, halign⟩ := hts t List.mem_cons_self
      have hplace : place? g st.packed p t = place? g' st.packed p t := by
        simp only [place?, hsize, halign]
      rw [List.foldlM_cons, List.foldlM_cons, hplace]
      exact bind_congr fun p' => ih (fun u hu => hts u (List.mem_cons_of_mem t hu)) p'
  unfold layOut?
  rw [hfold st.fields h]

theorem sizeBy?_congr (l : Layout) {g g' : Gauge} {t : Ty}
    (h : ∀ u ∈ l.defs.parts t, g.SameAt g' u) :
    l.sizeBy? g t = l.sizeBy? g' t := by
  unfold sizeBy?
  split
  · next st hst => rw [layOut?_congr (TypeDefs.parts_of_struct hst ▸ h)]
  · split
    all_goals first
      | rfl
      | skip
    · next len e heq =>
      obtain ⟨hsize, halign⟩ := h e (by rw [TypeDefs.parts_of_array heq]; exact List.mem_cons_self)
      simp only [hsize, halign]
    · next len e heq =>
      obtain ⟨hsize, -⟩ := h e (by rw [TypeDefs.parts_of_vector heq]; exact List.mem_cons_self)
      simp only [hsize]

theorem alignBy?_congr (l : Layout) {g g' : Gauge} {t : Ty}
    (h : ∀ u ∈ l.defs.parts t, g.SameAt g' u) : l.alignBy? g t = l.alignBy? g' t := by
  have hsize := l.sizeBy?_congr h
  unfold alignBy?
  split
  · next st hst => rw [layOut?_congr (TypeDefs.parts_of_struct hst ▸ h)]
  · split
    all_goals first
      | rfl
      | skip
    · next len e heq =>
      exact (h e (by rw [TypeDefs.parts_of_array heq]; exact List.mem_cons_self)).2
    · rw [hsize]

/-- Below the levels that a type has, descending further makes no difference. -/
theorem gauge_sameAt (l : Layout) {P : Ty → Prop} {n m : Nat} {t : Ty} (h : l.defs.Within P n t)
    (hnm : n ≤ m) : (l.gauge m).SameAt (l.gauge n) t := by
  induction h generalizing m with
  | @intro n t _ _ ih =>
    obtain ⟨k, rfl⟩ : ∃ k, m = k + 1 := ⟨m - 1, by omega⟩
    have hparts : ∀ u ∈ l.defs.parts t, (l.gauge k).SameAt (l.gauge n) u :=
      fun u hu => ih u hu (by omega)
    exact ⟨l.sizeBy?_congr hparts, l.alignBy?_congr hparts⟩

/-! ### Queries -/

/-- The structs of a set are told apart by their identities, and their fields are nested no deeper
than types are followed. -/
structure Apart (l : Layout) (S : Set StructTy) : Prop where
  eq_of_id : ∀ st ∈ S, ∀ st' ∈ S, st.id = st'.id → st = st'
  nested : ∀ st ∈ S, ∀ t ∈ st.fields, l.defs.Within (fun _ => True) maxTypeDepth t

/-- Of the structs of a set, only plain layouts are remembered. -/
def Sound (l : Layout) (S : Set StructTy) (cache : LayoutCache) : Prop :=
  ∀ st ∈ S, ∀ known, cache.get? st.id = some known → layOut? (l.gauge maxTypeDepth) st = some known

theorem sound_nil (l : Layout) (S : Set StructTy) : l.Sound S [] := by
  intro st _ known hknown
  cases hknown

variable {l : Layout} {S : Set StructTy} {α β : Type}

/-- From sound layouts a query gets the answer that is given, if there is one, and leaves sound
layouts. -/
def Agrees (l : Layout) (S : Set StructTy) (q : Query α) (answer : Option α) : Prop :=
  ∀ cache, l.Sound S cache →
    match answer with
    | some a => ∃ cache', q cache = some (a, cache') ∧ l.Sound S cache'
    | none => q cache = none

namespace Agrees

theorem pure (a : α) : Agrees l S (Pure.pure a) (some a) :=
  fun cache hcache => ⟨cache, rfl, hcache⟩

theorem bind {q : Query α} {answer : Option α} {f : α → Query β} {g : α → Option β}
    (hq : Agrees l S q answer) (hf : ∀ a, answer = some a → Agrees l S (f a) (g a)) :
    Agrees l S (q >>= f) (answer >>= g) := by
  intro cache hcache
  have hstart := hq cache hcache
  cases answer with
  | none =>
    have hnone : q cache = none := hstart
    change (q cache).bind _ = none
    rw [hnone]
    rfl
  | some a =>
    obtain ⟨cache', hrun, hcache'⟩ := hstart
    have hstep : (q >>= f) cache = f a cache' := by
      change (q cache).bind _ = _
      rw [hrun]
      rfl
    change match g a with
      | some b => _
      | none => _
    rw [hstep]
    exact hf a rfl cache' hcache'

theorem lift (answer : Option α) : Agrees l S (liftM answer : Query α) answer := by
  intro cache hcache
  cases answer with
  | none => rfl
  | some a => exact ⟨cache, rfl, hcache⟩

theorem map {q : Query α} {answer : Option α} (hq : Agrees l S q answer) (f : α → β) :
    Agrees l S (q >>= fun a => Pure.pure (f a)) (answer.map f) := by
  rw [Option.map_eq_bind]
  exact hq.bind fun a _ => .pure (f a)

end Agrees

/-- A way to measure, with layouts remembered, agrees with a plain one for a type. -/
structure AgreesAt (l : Layout) (S : Set StructTy) (below : Measure) (g : Gauge) (t : Ty) :
    Prop where
  size : Agrees l S (below.size t) (g.size t)
  align : Agrees l S (below.align t) (g.align t)

theorem placeField_agrees {below : Measure} {g : Gauge} {t : Ty} (h : l.AgreesAt S below g t)
    (packed : Bool) (p : Placed) :
    Agrees l S (placeField below packed p t) (place? g packed p t) := by
  -- What comes after the alignment of the field is known.
  have hrest (fieldAlign : Int64) := h.size.bind fun size _ => h.align.bind fun align _ =>
    Agrees.pure (l := l) (S := S) (⟨alignTo p.finish fieldAlign + alignTo size align,
      max p.align fieldAlign, alignTo p.finish fieldAlign :: p.offsets⟩ : Placed)
  cases packed with
  | true => exact (Agrees.pure 1).bind fun fieldAlign _ => hrest fieldAlign
  | false => exact h.align.bind fun fieldAlign _ => hrest fieldAlign

theorem foldlM_placeField_agrees {below : Measure} {g : Gauge} {ts : List Ty}
    (h : ∀ t ∈ ts, l.AgreesAt S below g t) (packed : Bool) (p : Placed) :
    Agrees l S (ts.foldlM (placeField below packed) p) (ts.foldlM (place? g packed) p) := by
  induction ts generalizing p with
  | nil => exact .pure p
  | cons t ts ih =>
    rw [List.foldlM_cons, List.foldlM_cons]
    exact (placeField_agrees (h t List.mem_cons_self) packed p).bind fun p' _ =>
      ih (fun u hu => h u (List.mem_cons_of_mem t hu)) p'

/-- What a struct is remembered as, once it is laid out. -/
theorem Sound.put {cache : LayoutCache} (h : l.Sound S cache) (hS : l.Apart S) {st : StructTy}
    (hst : st ∈ S) {laidOut : StructLayout}
    (hlaid : layOut? (l.gauge maxTypeDepth) st = some laidOut) :
    l.Sound S (cache.put st.id laidOut) := by
  intro st' hst' known hknown
  rw [Assoc.get?_put] at hknown
  split at hknown
  · next hid =>
    cases hknown
    rw [← hS.eq_of_id st hst st' hst' hid]
    exact hlaid
  · exact h st' hst' known hknown

theorem structWith_of_known {cache : LayoutCache} {st : StructTy} {known : StructLayout}
    (h : cache.get? st.id = some known) (below : Measure) :
    structWith below st cache = some (known, cache) := by
  simp only [structWith, bind, StateT.bind, get, getThe, MonadStateOf.get, StateT.get, Option.bind,
    Pure.pure, h]
  rfl

theorem structWith_of_new {cache : LayoutCache} {st : StructTy} (h : cache.get? st.id = none)
    (below : Measure) :
    structWith below st cache =
      if st.incomplete then some (⟨[], 0, 1⟩, cache)
      else (st.fields.foldlM (placeField below st.packed) ⟨0, 1, []⟩ cache).map fun r =>
        let laidOut : StructLayout :=
          ⟨r.1.offsets.reverse, alignTo r.1.finish r.1.align, r.1.align⟩
        (laidOut, r.2.put st.id laidOut) := by
  simp only [structWith, bind, StateT.bind, get, getThe, MonadStateOf.get, StateT.get, Option.bind,
    Pure.pure, h]
  cases st.incomplete with
  | true => rfl
  | false =>
    change (st.fields.foldlM (placeField below st.packed) ⟨0, 1, []⟩ cache).bind _ = _
    cases st.fields.foldlM (placeField below st.packed) ⟨0, 1, []⟩ cache <;> rfl

theorem structWith_agrees (hS : l.Apart S) {n : Nat} (hn : n ≤ maxTypeDepth) {st : StructTy}
    (hst : st ∈ S) (hfields : ∀ t ∈ st.fields, l.defs.Within (fun _ => True) n t)
    (h : ∀ t ∈ st.fields, l.AgreesAt S (l.measure n) (l.gauge n) t) :
    Agrees l S (structWith (l.measure n) st) (layOut? (l.gauge n) st) := by
  have hdepth : layOut? (l.gauge maxTypeDepth) st = layOut? (l.gauge n) st :=
    layOut?_congr fun t ht => l.gauge_sameAt (hfields t ht) hn
  intro cache hcache
  cases hget : cache.get? st.id with
  | some known =>
    rw [← hdepth, hcache st hst known hget]
    exact ⟨cache, structWith_of_known hget _, hcache⟩
  | none =>
    rw [structWith_of_new hget]
    unfold layOut?
    cases hinc : st.incomplete with
    | true => exact ⟨cache, rfl, hcache⟩
    | false =>
      simp only [Bool.false_eq_true, if_false]
      have hfold := foldlM_placeField_agrees h st.packed ⟨0, 1, []⟩ cache hcache
      cases hp : st.fields.foldlM (place? (l.gauge n) st.packed) ⟨0, 1, []⟩ with
      | none =>
        rw [hp] at hfold
        have hnone : st.fields.foldlM (placeField (l.measure n) st.packed) ⟨0, 1, []⟩ cache =
          none := hfold
        rw [hnone]
        rfl
      | some p =>
        rw [hp] at hfold
        obtain ⟨cache', hrun, hcache'⟩ := hfold
        rw [hrun]
        refine ⟨_, rfl, hcache'.put hS hst ?_⟩
        rw [hdepth, layOut?, hinc]
        simp only [Bool.false_eq_true, if_false, hp]
        rfl

theorem sizeWith_agrees {below : Measure} {g : Gauge} {t : Ty}
    (hparts : ∀ u ∈ l.defs.parts t, l.AgreesAt S below g u)
    (hstruct : ∀ st, l.defs.struct? t = some st → Agrees l S (structWith below st) (layOut? g st)) :
    Agrees l S (l.sizeWith below t) (l.sizeBy? g t) := by
  unfold sizeWith sizeBy?
  cases hst : l.defs.struct? t with
  | some st => exact (hstruct st hst).map _
  | none =>
    cases hexp : l.defs.expand t with
    | array len e =>
      have he := hparts e (by rw [TypeDefs.parts_of_array hexp]; exact List.mem_cons_self)
      dsimp only
      cases hlen : length? len with
      | some n => exact he.size.bind fun size _ => he.align.bind fun align _ => .pure _
      | none => exact .pure 0
    | vector scalable len e =>
      have he := hparts e (by rw [TypeDefs.parts_of_vector hexp]; exact List.mem_cons_self)
      dsimp only
      cases hlen : length? len with
      | some n =>
        cases hlane : l.defs.expand e with
        | int bits => exact .pure _
        | _ => exact he.size.bind fun size _ => .pure _
      | none => exact .pure 0
    | _ => exact .pure _

theorem alignWith_agrees {below : Measure} {g : Gauge} {t : Ty}
    (hparts : ∀ u ∈ l.defs.parts t, l.AgreesAt S below g u)
    (hstruct : ∀ st, l.defs.struct? t = some st → Agrees l S (structWith below st) (layOut? g st)) :
    Agrees l S (l.alignWith below t) (l.alignBy? g t) := by
  have hsize := sizeWith_agrees hparts hstruct
  unfold alignWith alignBy?
  cases hst : l.defs.struct? t with
  | some st => exact (hstruct st hst).map _
  | none =>
    cases hexp : l.defs.expand t with
    | int bits =>
      dsimp only
      cases hint : l.data.intAlign.get? bits with
      | some a => exact .pure a
      | none => exact (Agrees.lift _).bind fun size _ => .pure _
    | array len e =>
      exact (hparts e (by rw [TypeDefs.parts_of_array hexp]; exact List.mem_cons_self)).align
    | vector scalable len e => exact hsize.bind fun size _ => .lift _
    | _ => exact .pure _

/-- Within the depth that types are followed, remembered layouts make no difference. -/
theorem measure_agrees (hS : l.Apart S) {n : Nat} (hn : n ≤ maxTypeDepth + 1) {t : Ty}
    (h : l.defs.Within (fun u => ∀ st ∈ l.defs.struct? u, st ∈ S) n t) :
    l.AgreesAt S (l.measure n) (l.gauge n) t := by
  induction h with
  | @intro n t here parts ih =>
    have hparts : ∀ u ∈ l.defs.parts t, l.AgreesAt S (l.measure n) (l.gauge n) u :=
      fun u hu => ih u hu (by omega)
    have hstruct : ∀ st, l.defs.struct? t = some st →
        Agrees l S (structWith (l.measure n) st) (layOut? (l.gauge n) st) := by
      intro st hst
      rw [TypeDefs.parts_of_struct hst] at hparts parts
      exact structWith_agrees hS (by omega) (here st hst)
        (fun u hu => (parts u hu).imp fun _ _ => trivial) hparts
    exact ⟨sizeWith_agrees hparts hstruct, alignWith_agrees hparts hstruct⟩

end Layout
end CallTargets
