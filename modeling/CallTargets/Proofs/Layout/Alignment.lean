import CallTargets.Proofs.Layout.Session

/-!
# Alignments as powers of two

All alignments are powers of two if and only if those are that the data layout gives to pointers and
integers. Of two powers of two one divides the other, and both divide the number of words, so the
largest alignment in a struct is a common multiple of all of them and no wrapping takes a field off
its alignment. Fields therefore stay aligned in every element of an array.
-/
namespace CallTargets

open IR

def PowerOfTwo (a : Int64) : Prop := ∃ k : Nat, a.toInt = 2 ^ k

namespace PowerOfTwo

variable {a b : Int64}

theorem ofNat {k : Nat} (hk : k < 63) : PowerOfTwo (.ofNat (2 ^ k)) := by
  refine ⟨k, ?_⟩
  rw [Int64.toInt_ofNat_of_lt (Nat.pow_lt_pow_right (by decide) hk)]
  norm_cast

theorem dvd_of_le (ha : PowerOfTwo a) (hb : PowerOfTwo b) (h : a ≤ b) : a.toInt ∣ b.toInt := by
  obtain ⟨j, hj⟩ := ha
  obtain ⟨k, hk⟩ := hb
  rw [Int64.le_iff_toInt_le, hj, hk] at h
  rw [hj, hk]
  exact pow_dvd_pow 2 ((pow_le_pow_iff_right₀ (by norm_num)).mp h)

theorem max (ha : PowerOfTwo a) (hb : PowerOfTwo b) : PowerOfTwo (max a b) := by
  change PowerOfTwo (if a ≤ b then b else a)
  split
  · exact hb
  · exact ha

theorem min (ha : PowerOfTwo a) (hb : PowerOfTwo b) : PowerOfTwo (min a b) := by
  change PowerOfTwo (if a ≤ b then a else b)
  split
  · exact ha
  · exact hb

theorem dvd_max_left (ha : PowerOfTwo a) (hb : PowerOfTwo b) :
    a.toInt ∣ (Max.max a b).toInt := by
  change a.toInt ∣ (if a ≤ b then b else a).toInt
  split
  · next h => exact ha.dvd_of_le hb h
  · exact dvd_rfl

theorem dvd_max_right (ha : PowerOfTwo a) (hb : PowerOfTwo b) :
    b.toInt ∣ (Max.max a b).toInt := by
  change b.toInt ∣ (if a ≤ b then b else a).toInt
  split
  · exact dvd_rfl
  · next h => exact hb.dvd_of_le ha ((Int64.le_total a b).resolve_left h)

theorem dvd_words (h : PowerOfTwo a) : a.toInt ∣ (2 ^ 64 : Nat) := by
  obtain ⟨k, hk⟩ := h
  have hlt : (2 : Int) ^ k < 2 ^ 63 := hk ▸ a.toInt_lt
  have hk63 : k < 63 := (pow_lt_pow_iff_right₀ (by norm_num)).mp hlt
  have hdvd : (2 : Int) ^ k ∣ 2 ^ 64 := pow_dvd_pow 2 (by omega)
  rw [hk]
  exact_mod_cast hdvd

/-- Wrapping around keeps the multiples of a power of two. -/
theorem dvd_bmod (h : PowerOfTwo a) {n : Int} (hn : a.toInt ∣ n) : a.toInt ∣ n.bmod (2 ^ 64) := by
  rw [Int.bmod_eq_self_sub_mul_bdiv]
  exact dvd_sub hn (Dvd.dvd.mul_right h.dvd_words _)

theorem dvd_alignTo (h : PowerOfTwo a) (n : Int64) : a.toInt ∣ (alignTo n a).toInt := by
  unfold alignTo
  split
  · next hone =>
    have hdvd := h.dvd_of_le (ofNat (k := 0) (by decide)) hone
    exact Int.dvd_trans hdvd (one_dvd _)
  · rw [Int64.toInt_mul]
    exact h.dvd_bmod (dvd_mul_left _ _)

end PowerOfTwo

theorem powerOfTwo_of_ceil {n p : Int64} (h : powerOfTwoCeil? n = some p) : PowerOfTwo p := by
  obtain ⟨k, hk, rfl⟩ := List.mem_map.mp (List.mem_of_find?_eq_some h)
  rw [Nat.one_shiftLeft]
  exact .ofNat (List.mem_range.mp hk)

theorem powerOfTwo_floatAlign (k : FloatKind) : PowerOfTwo (floatAlign k) := by
  cases k with
  | half => exact ⟨1, rfl⟩
  | single => exact ⟨2, rfl⟩
  | double => exact ⟨3, rfl⟩
  | x86fp80 | fp128 | ppcfp128 => exact ⟨4, rfl⟩

/-- A data layout aligns pointers and integers at powers of two. -/
structure DataLayout.Binary (d : DataLayout) : Prop where
  pointerAlign : PowerOfTwo d.pointerAlign
  intAlign : ∀ w a, d.intAlign.get? w = some a → PowerOfTwo a

theorem DataLayout.binary_ofText {text : String} (h : ∀ n, Written text n → PowerOfTwo n) :
    (ofText text).Binary := by
  have hall : (ofText text).All PowerOfTwo := by
    refine all_ofText (all_standard ?_) h
    simp only [List.mem_cons, List.not_mem_nil, or_false]
    rintro n (rfl | rfl | rfl | rfl | rfl)
    exacts [⟨0, rfl⟩, ⟨1, rfl⟩, ⟨2, rfl⟩, ⟨3, rfl⟩, ⟨4, rfl⟩]
  exact ⟨hall.pointerAlign, hall.intAlign⟩

/-! ### Fields of a struct -/

/-- Fields of some alignments start at multiples of them, and the alignment of the whole is a
multiple of each. -/
structure Fits (whole : Int64) (aligns offsets : List Int64) : Prop where
  power : PowerOfTwo whole
  fields : List.Forall₂ (fun a o => a.toInt ∣ whole.toInt ∧ a.toInt ∣ o.toInt) aligns offsets

namespace Fits

variable {whole : Int64} {aligns offsets : List Int64}

theorem nil : Fits 1 [] [] := ⟨⟨0, rfl⟩, .nil⟩

theorem cons (h : Fits whole aligns offsets) {a : Int64} (ha : PowerOfTwo a) (finish : Int64) :
    Fits (max whole a) (a :: aligns) (alignTo finish a :: offsets) where
  power := h.power.max ha
  fields := by
    refine .cons ⟨h.power.dvd_max_right ha, ha.dvd_alignTo finish⟩ (h.fields.imp ?_)
    intro b o hfit
    exact ⟨hfit.1.trans (h.power.dvd_max_left ha), hfit.2⟩

theorem reverse (h : Fits whole aligns offsets) : Fits whole aligns.reverse offsets.reverse :=
  ⟨h.power, List.rel_reverse h.fields⟩

theorem elements (h : Fits whole aligns offsets) (size : Int64) :
    List.Forall₂ (fun a o => a.toInt ∣ whole.toInt ∧
      ∀ k : Int, a.toInt ∣ k * (alignTo size whole).toInt + o.toInt) aligns offsets := by
  refine h.fields.imp fun a o hfit => ⟨hfit.1, fun k => ?_⟩
  have hstride := hfit.1.trans (h.power.dvd_alignTo size)
  exact dvd_add (hstride.mul_left k) hfit.2

end Fits

/-- The alignment at which a struct has a field, where `A` tells those of types. -/
def AlignedIn (packed : Bool) (A : Ty → Int64 → Prop) (t : Ty) (a : Int64) : Prop :=
  if packed then a = 1 else A t a

namespace Layout

variable {J : Judgement} {below : Measure} {A : Ty → Int64 → Prop}

/-- By a judgement, the alignment of a type is one that `A` tells, and a power of two. -/
structure Sized (J : Judgement) (below : Measure) (A : Ty → Int64 → Prop) (t : Ty) : Prop where
  size : J.Holds (below.size t) fun _ => True
  align : J.Holds (below.align t) (A t)
  power : ∀ a, A t a → PowerOfTwo a

theorem Sized.power_in {t : Ty} (h : Sized J below A t) {packed : Bool} {a : Int64}
    (ha : AlignedIn packed A t a) : PowerOfTwo a := by
  cases packed with
  | true =>
    obtain rfl : a = 1 := ha
    exact ⟨0, rfl⟩
  | false => exact h.power a ha

theorem placeField_fits {t : Ty} (h : Sized J below A t) (packed : Bool) {p : Placed}
    {aligns : List Int64} (hp : Fits p.align aligns p.offsets) :
    J.Holds (placeField below packed p t) fun p' =>
      ∃ a, AlignedIn packed A t a ∧ Fits p'.align (a :: aligns) p'.offsets := by
  have hrest (a : Int64) (ha : AlignedIn packed A t a) :=
    J.bind h.size fun size _ => J.bind h.align fun align _ =>
      J.pure (P := fun p' : Placed =>
          ∃ a, AlignedIn packed A t a ∧ Fits p'.align (a :: aligns) p'.offsets)
        (a := ⟨alignTo p.finish a + alignTo size align, max p.align a,
          alignTo p.finish a :: p.offsets⟩)
        ⟨a, ha, hp.cons (h.power_in ha) p.finish⟩
  cases packed with
  | true => exact J.bind (J.pure (P := (· = 1)) rfl) fun a ha => hrest a ha
  | false => exact J.bind h.align fun a ha => hrest a ha

theorem foldlM_placeField_fits {ts : List Ty} (h : ∀ t ∈ ts, Sized J below A t) (packed : Bool)
    {p : Placed} {before : List Int64} (hp : Fits p.align before p.offsets) :
    J.Holds (ts.foldlM (placeField below packed) p) fun p' =>
      ∃ aligns, List.Forall₂ (AlignedIn packed A) ts aligns ∧
        Fits p'.align (aligns.reverse ++ before) p'.offsets := by
  induction ts generalizing p before with
  | nil => exact J.pure ⟨[], .nil, hp⟩
  | cons t ts ih =>
    rw [List.foldlM_cons]
    refine J.bind (placeField_fits (h t List.mem_cons_self) packed hp) ?_
    rintro p' ⟨a, ha, hp'⟩
    refine J.imp (ih (fun u hu => h u (List.mem_cons_of_mem t hu)) hp') ?_
    rintro p'' ⟨aligns, haligns, hp''⟩
    exact ⟨a :: aligns, .cons ha haligns, by simpa using hp''⟩

/-- A struct that is not remembered is laid out so that its fields fit. -/
theorem structWith_fits {I : LayoutCache → Prop} {st : StructTy}
    (h : ∀ t ∈ st.fields, Sized (.keeping I) below A t)
    (hinc : st.incomplete = true → st.fields = []) {cache cache' : LayoutCache}
    {laid : StructLayout} (hcache : I cache) (hnew : cache.get? st.id = none)
    (hrun : structWith below st cache = some (laid, cache')) :
    (∃ aligns, List.Forall₂ (AlignedIn st.packed A) st.fields aligns ∧
      Fits laid.align aligns laid.offsets) ∧
    ∃ between, I between ∧ (cache' = between ∨ cache' = between.put st.id laid) := by
  rw [structWith_of_new hnew] at hrun
  cases hi : st.incomplete with
  | true =>
    simp only [hi, if_true, Option.some_inj, Prod.mk.injEq] at hrun
    obtain ⟨rfl, rfl⟩ := hrun
    rw [hinc hi]
    exact ⟨⟨[], .nil, .nil⟩, cache, hcache, .inl rfl⟩
  | false =>
    simp only [hi, Bool.false_eq_true, if_false] at hrun
    obtain ⟨⟨p, between⟩, hfold, hlaid⟩ := Option.map_eq_some_iff.mp hrun
    cases hlaid
    obtain ⟨⟨aligns, haligns, hfits⟩, hbetween⟩ :=
      foldlM_placeField_fits h st.packed .nil cache hcache p between hfold
    refine ⟨⟨aligns, haligns, ?_⟩, between, hbetween, .inr rfl⟩
    simpa using hfits.reverse

/-! ### Alignments of all types -/

def BinaryCache (cache : LayoutCache) : Prop :=
  ∀ id known, cache.get? id = some known → PowerOfTwo known.align

theorem binaryCache_nil : BinaryCache [] := nofun

theorem BinaryCache.put {cache : LayoutCache} (h : BinaryCache cache) (id : StructId)
    {laid : StructLayout} (hlaid : PowerOfTwo laid.align) : BinaryCache (cache.put id laid) := by
  intro id' known hknown
  rw [Assoc.get?_put] at hknown
  split at hknown
  · cases hknown
    exact hlaid
  · exact h id' known hknown

abbrev binary : Judgement := .keeping BinaryCache

abbrev Binary (below : Measure) (t : Ty) : Prop := Sized binary below (fun _ => PowerOfTwo) t

theorem binary_lift {α : Type} {P : α → Prop} {answer : Option α} (h : ∀ a ∈ answer, P a) :
    binary.Holds (liftM answer : Query α) P := by
  intro cache hcache a cache' hrun
  cases answer with
  | none => cases hrun
  | some b =>
    cases hrun
    exact ⟨h a rfl, hcache⟩

theorem structWith_binary {st : StructTy} (h : ∀ t ∈ st.fields, Binary below t)
    (hinc : st.incomplete = true → st.fields = []) :
    binary.Holds (structWith below st) fun laid => PowerOfTwo laid.align := by
  intro cache hcache laid cache' hrun
  cases hget : cache.get? st.id with
  | some known =>
    rw [structWith_of_known hget] at hrun
    cases hrun
    exact ⟨hcache st.id laid hget, hcache⟩
  | none =>
    obtain ⟨⟨aligns, -, hfits⟩, between, hbetween, rfl | rfl⟩ :=
      structWith_fits h hinc hcache hget hrun
    · exact ⟨hfits.power, hbetween⟩
    · exact ⟨hfits.power, hbetween.put st.id hfits.power⟩

variable {l : Layout}

theorem sizeWith_binary (h : ∀ t, Binary below t) (t : Ty) :
    binary.Holds (l.sizeWith below t) fun _ => True := by
  unfold sizeWith
  cases hst : l.defs.struct? t with
  | some st =>
    have hstruct := structWith_binary (fun u _ => h u) fun hi => (fields_of_incomplete hst hi).1
    exact binary.bind hstruct fun _ _ => binary.pure trivial
  | none =>
    dsimp only
    split
    · exact binary.pure trivial
    · exact binary.pure trivial
    · exact binary.pure trivial
    · exact binary.pure trivial
    · next len e _ =>
      split
      · exact binary.bind (h e).size fun _ _ => binary.bind (h e).align fun _ _ =>
          binary.pure trivial
      · exact binary.pure trivial
    · next scalable len e _ =>
      split
      · split
        · exact binary.pure trivial
        · exact binary.bind (h e).size fun _ _ => binary.pure trivial
      · exact binary.pure trivial
    · exact binary.pure trivial

theorem alignWith_binary (hdata : l.data.Binary) (h : ∀ t, Binary below t) (t : Ty) :
    binary.Holds (l.alignWith below t) PowerOfTwo := by
  unfold alignWith
  cases hst : l.defs.struct? t with
  | some st =>
    have hstruct := structWith_binary (fun u _ => h u) fun hi => (fields_of_incomplete hst hi).1
    exact binary.bind hstruct fun _ ha => binary.pure ha
  | none =>
    dsimp only
    split
    · next bits _ =>
      split
      · next a ha => exact binary.pure (hdata.intAlign bits a ha)
      · refine binary.bind (binary_lift fun _ => powerOfTwo_of_ceil) fun p hp => ?_
        exact binary.pure (hp.min ⟨4, rfl⟩)
    · next k _ => exact binary.pure (powerOfTwo_floatAlign k)
    · exact binary.pure hdata.pointerAlign
    · exact binary.pure ⟨3, rfl⟩
    · next len e _ => exact (h e).align
    · refine binary.bind (sizeWith_binary h t) fun size _ => ?_
      exact binary_lift fun _ => powerOfTwo_of_ceil
    · exact binary.pure ⟨0, rfl⟩

/-- At any depth, alignments are powers of two and remembered ones stay so. -/
theorem measure_binary (hdata : l.data.Binary) (n : Nat) (t : Ty) : Binary (l.measure n) t := by
  induction n generalizing t with
  | zero => exact ⟨binary.pure trivial, binary.pure ⟨0, rfl⟩, fun _ ha => ha⟩
  | succ n ih => exact ⟨sizeWith_binary ih t, alignWith_binary hdata ih t, fun _ ha => ha⟩

theorem binary_measured (hdata : l.data.Binary) : binary.Measured l fun _ => True where
  part _ _ _ _ := trivial
  size t _ := (measure_binary hdata _ t).size
  align t _ := binary.imp (measure_binary hdata _ t).align fun _ _ => trivial
  offsets _ _ _ hst := by
    have hstruct := structWith_binary (fun u _ => measure_binary hdata maxTypeDepth u)
      fun hi => (fields_of_incomplete hst hi).1
    exact binary.bind hstruct fun _ _ => binary.pure trivial

/-- After any questions, alignments are powers of two. -/
def AlwaysBinary (l : Layout) : Prop :=
  ∀ questions answers cache, l.session questions [] = some (answers, cache) →
    ∀ t a cache', l.align t cache = some (a, cache') → PowerOfTwo a

theorem align_ptr (l : Layout) : l.align (.ptr 0 .void) = pure l.data.pointerAlign := by
  change l.alignWith (l.measure maxTypeDepth) (.ptr 0 .void) = _
  have hstruct : l.defs.struct? (.ptr 0 .void) = none := rfl
  have hexpand : l.defs.expand (.ptr 0 .void) = .ptr 0 .void := rfl
  simp only [alignWith, hstruct, hexpand]

theorem align_int {w : UInt64} {a : Int64} (h : l.data.intAlign.get? w = some a) :
    l.align (.int w) = pure a := by
  change l.alignWith (l.measure maxTypeDepth) (.int w) = _
  have hstruct : l.defs.struct? (.int w) = none := rfl
  have hexpand : l.defs.expand (.int w) = .int w := rfl
  simp only [alignWith, hstruct, hexpand, h]

theorem alwaysBinary_iff : l.AlwaysBinary ↔ l.data.Binary := by
  constructor
  · -- Pointers and integers are aligned as the data layout says.
    intro h
    constructor
    case pointerAlign =>
      apply h [] [] [] rfl (.ptr 0 .void) l.data.pointerAlign []
      rw [align_ptr]
      rfl
    case intAlign =>
      intro w a hw
      apply h [] [] [] rfl (.int w) a []
      rw [align_int hw]
      rfl
  · intro hdata questions answers cache hsession t a cache' hrun
    have hkeeps : binary.Holds (l.session questions) fun _ => True :=
      (binary_measured hdata).session fun _ _ _ _ => trivial
    have hcache := (hkeeps [] binaryCache_nil answers cache hsession).2
    exact ((measure_binary hdata _ t).align cache hcache a cache' hrun).1

/-! ### Fields of arrays -/

variable {S : Set StructTy}

/-- The alignment of every field of a struct divides that of the struct, and every field is aligned
in all elements of an array of it. -/
def FieldsAligned (l : Layout) (S : Set StructTy) (t : Ty) (st : StructTy) : Prop :=
  ∃ (whole stride : Int64) (aligns offsets : List Int64),
    Agrees l S (l.align t) (some whole) ∧ Agrees l S (l.alloc t) (some stride) ∧
    Agrees l S (l.fieldOffsets st) (some offsets) ∧
    List.Forall₂ (fun u a => Agrees l S (l.align u) (some a)) st.fields aligns ∧
    List.Forall₂ (fun a o => a.toInt ∣ whole.toInt ∧
      ∀ k : Int, a.toInt ∣ k * stride.toInt + o.toInt) aligns offsets

theorem powerOfTwo_of_agrees (hdata : l.data.Binary) {t : Ty} {a : Int64}
    (h : Agrees l S (l.align t) (some a)) : PowerOfTwo a := by
  obtain ⟨cache, hrun, -⟩ := h [] (l.sound_nil S)
  exact ((measure_binary hdata _ t).align [] binaryCache_nil a cache hrun).1

/-- A type inside another one is measured there as it is measured on its own. -/
theorem sized_of_within (hdata : l.data.Binary) (hS : l.Apart S) {t : Ty}
    (ht : l.defs.Within (fun u => ∀ st ∈ l.defs.struct? u, st ∈ S) maxTypeDepth t) :
    Sized (.keeping (l.Sound S)) (l.measure maxTypeDepth)
      (fun u a => Agrees l S (l.align u) (some a)) t := by
  have hinside := measure_agrees hS (Nat.le_succ _) ht
  have halone := (measure_agrees hS (le_refl _) (ht.mono (Nat.le_succ _))).align
  rw [(l.gauge_sameAt ht (Nat.le_succ _)).2] at halone
  refine ⟨keeping_of_settling ⟨_, hinside.size, fun _ _ => trivial⟩, ?_,
    fun _ => powerOfTwo_of_agrees hdata⟩
  refine keeping_of_settling ⟨_, hinside.align, fun a ha => ?_⟩
  rw [Option.mem_def] at ha
  rwa [ha] at halone

theorem size_of_struct {t : Ty} {st : StructTy} (hst : l.defs.struct? t = some st) :
    l.size t = structWith (l.measure maxTypeDepth) st >>= fun laid => pure laid.size := by
  change l.sizeWith (l.measure maxTypeDepth) t = _
  simp only [sizeWith, hst]

theorem align_of_struct {t : Ty} {st : StructTy} (hst : l.defs.struct? t = some st) :
    l.align t = structWith (l.measure maxTypeDepth) st >>= fun laid => pure laid.align := by
  change l.alignWith (l.measure maxTypeDepth) t = _
  simp only [alignWith, hst]

theorem fieldsAligned (hdata : l.data.Binary) (hS : l.Apart S) {t : Ty} (ht : l.Follows S t)
    {st : StructTy} (hst : l.defs.struct? t = some st) (hpacked : st.packed = false)
    (hends : (l.align t []).isSome) : l.FieldsAligned S t st := by
  have hstruct := Follows.struct_agrees ht hS hst
  have hsize := hstruct.map StructLayout.size
  have halign := hstruct.map StructLayout.align
  rw [← size_of_struct hst] at hsize
  rw [← align_of_struct hst] at halign
  cases hlaid : layOut? (l.gauge maxTypeDepth) st with
  | none =>
    rw [hlaid] at halign
    have hnone : l.align t [] = none := halign [] (l.sound_nil S)
    rw [hnone] at hends
    cases hends
  | some laid =>
    rw [hlaid] at hstruct hsize halign
    obtain ⟨cache, hrun, -⟩ := hstruct [] (l.sound_nil S)
    obtain ⟨⟨aligns, haligns, hfits⟩, -⟩ := structWith_fits
      (fun u hu => sized_of_within hdata hS (ht.field hst hu))
      (fun hi => (fields_of_incomplete hst hi).1) (l.sound_nil S) rfl hrun
    rw [hpacked] at haligns
    exact ⟨laid.align, alignTo laid.size laid.align, aligns, laid.offsets, halign,
      hsize.then (halign.then (.pure _)), hstruct.map _, haligns, hfits.elements laid.size⟩

end Layout

/-- All alignments are powers of two if and only if the data layout gives no others, and a text that
specifies no others gives none. Then the fields of every struct that is not packed stay aligned, if
it is nested no deeper than types are followed and its layout has an end. -/
theorem alignments_binary {l : Layout} {text : String} (hl : l.data = .ofText text) :
    (l.AlwaysBinary ↔ l.data.Binary) ∧
    ((∀ n, DataLayout.Written text n → PowerOfTwo n) → l.data.Binary) ∧
    (l.data.Binary → ∀ ts, l.Distinct ts → ∀ t ∈ ts, ∀ st, l.defs.struct? t = some st →
      st.packed = false → (l.align t []).isSome → l.FieldsAligned (l.structsAmong ts) t st) := by
  refine ⟨Layout.alwaysBinary_iff, fun hwritten => ?_, ?_⟩
  · rw [hl]
    exact DataLayout.binary_ofText hwritten
  · intro hdata ts hts t ht st hst hpacked hends
    exact Layout.fieldsAligned hdata hts.apart (hts.follows t ht) hst hpacked hends

namespace Nested

/-- Long integers are at multiples of eight. Twelve bits make no bytes. -/
def binaryLayout : Layout where
  data := .ofText "e-p:32:32-i64:64-i128:12"
  defs := layout.defs

theorem binary_distinct : binaryLayout.Distinct (questions.flatMap Question.types) := by
  have hdefs : binaryLayout.defs = layout.defs := rfl
  constructor
  case nested =>
    rw [hdefs]
    exact questions_distinct.nested
  case eq_of_id =>
    unfold Layout.structsAmong
    rw [hdefs]
    exact questions_distinct.eq_of_id

theorem binary_written {n : Int64} (h : DataLayout.Written "e-p:32:32-i64:64-i128:12" n) :
    PowerOfTwo n := by
  obtain ⟨spec, hspec, s, hs, hn⟩ := h
  have hall : ∀ spec ∈ DataLayout.parts '-' "e-p:32:32-i64:64-i128:12".toList,
      ∀ s ∈ (DataLayout.fields spec).tail,
        (DataLayout.readBytes? s).all [4, 8].contains = true := by
    decide +kernel
  have hmem := hall spec hspec s hs
  rw [hn, Option.all_some, List.contains_iff_mem] at hmem
  simp only [List.mem_cons, List.not_mem_nil, or_false] at hmem
  obtain rfl | rfl := hmem
  exacts [⟨2, rfl⟩, ⟨3, rfl⟩]

theorem not_powerOfTwo_three : ¬ PowerOfTwo 3 := by
  rintro ⟨k, hk⟩
  change (3 : Int) = 2 ^ k at hk
  cases k with
  | zero => cases hk
  | succ k =>
    rw [pow_succ] at hk
    omega

end Nested

/-- With long integers at multiples of three not all alignments are powers of two. -/
theorem alignments_binary_nested :
    ¬ Nested.layout.AlwaysBinary ∧ Nested.binaryLayout.AlwaysBinary ∧
      Nested.binaryLayout.FieldsAligned
        (Nested.binaryLayout.structsAmong (Nested.questions.flatMap Question.types))
        (.named "outer") Nested.outer := by
  obtain ⟨hiff, -, -⟩ := alignments_binary (l := Nested.layout) rfl
  obtain ⟨hiff', hwritten, hfields⟩ := alignments_binary (l := Nested.binaryLayout) rfl
  have hdata := hwritten fun _ => Nested.binary_written
  refine ⟨?_, hiff'.mpr hdata, ?_⟩
  · intro halways
    have hlong : Nested.layout.data.intAlign.get? 64 = some 3 := by decide +kernel
    exact Nested.not_powerOfTwo_three ((hiff.mp halways).intAlign 64 3 hlong)
  · exact hfields hdata _ Nested.binary_distinct _ List.mem_cons_self _ rfl rfl (by decide +kernel)

end CallTargets
