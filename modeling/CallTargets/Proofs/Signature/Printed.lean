import CallTargets.IR.Type.Text
import CallTargets.Text.Blank
import Mathlib

/-!
# The characters of printed types

A printed type is a word, a name, or made of the printed types inside it. Words and plain names
consist of letters, digits and a few signs. Any other name is quoted, and no quote stands inside the
quotes. What holds of words and names and is handed on by each way to compose types holds of all
printed types.
-/
namespace CallTargets

namespace Text

def isWordChar (c : Char) : Bool :=
  c.isAlphanum || c == '$' || c == '-' || c == '.' || c == '_'

theorem isWordChar_of_isDigit {c : Char} (h : c.isDigit = true) : isWordChar c = true := by
  simp [isWordChar, Char.isAlphanum, h]

theorem isBlank_of_isWordChar {c : Char} (h : isWordChar c = true) : isBlank c = false := by
  have hrange : 36 ≤ c.toNat ∧ c.toNat ≤ 122 := by
    simp only [isWordChar, Char.isAlphanum, Char.isAlpha, Char.isUpper, Char.isLower, Char.isDigit,
      Bool.or_eq_true, Bool.and_eq_true, decide_eq_true_eq, beq_iff_eq] at h
    simp only [UInt32.le_iff_toNat_le, Char.toNat_val] at h
    rcases h with (((((h | h) | h) | rfl) | rfl) | rfl) | rfl
    all_goals first | decide | exact ⟨le_trans (by decide) h.1, le_trans h.2 (by decide)⟩
  simp only [isBlank, Bool.or_eq_false_iff, Bool.and_eq_false_iff, decide_eq_false_iff_not,
    beq_eq_false_iff_ne]
  omega

def isLowerWord (w : List Char) : Bool := w.all isWordChar && w.head?.any Char.isLower

theorem isLowerWord_iff {w : List Char} :
    isLowerWord w = true ↔
      (∀ c ∈ w, isWordChar c = true) ∧ ∃ c cs, w = c :: cs ∧ c.isLower = true := by
  cases w <;> simp [isLowerWord]

theorem dropBlanks_append (a b : List Char) : dropBlanks (a ++ b) = dropBlanks a ++ dropBlanks b :=
  List.filter_append ..

theorem dropBlanks_of_word {w : List Char} (h : ∀ c ∈ w, isWordChar c = true) :
    dropBlanks w = w := by
  simpa [dropBlanks, List.filter_eq_self] using fun c hc => isBlank_of_isWordChar (h c hc)

def nameChars (name : ByteString) : List Char := (quoteName name).toList

theorem plainByte_ascii {b : UInt8} (h : isPlainByte b = true) : b.toNat < 0x80 := by
  simp only [isPlainByte, Bool.or_eq_true, Bool.and_eq_true, decide_eq_true_eq, beq_iff_eq] at h
  omega

theorem isWordChar_of_plainByte {b : UInt8} (h : isPlainByte b = true) :
    isWordChar (Char.ofNat b.toNat) = true := by
  have hall : ∀ n < 128, isPlainByte (.ofNat n) = true → isWordChar (Char.ofNat n) = true := by
    decide +kernel
  exact hall b.toNat (plainByte_ascii h) (by simpa using h)

/-- Inside quotes there is no quote, and a blank only for a space in the name. -/
theorem escapeByte_chars {b : UInt8} {c : Char} (h : c ∈ escapeByte b) :
    c ≠ '"' ∧ (isBlank c = true → b = 0x20) := by
  have hall : ∀ n < 256, (escapeByte (.ofNat n)).all
      (fun c => c != '"' && (!isBlank c || UInt8.ofNat n == 0x20)) = true := by decide +kernel
  have hchar := List.all_eq_true.mp (hall b.toNat b.toNat_lt) c (by simpa using h)
  simp only [UInt8.ofNat_toNat, Bool.and_eq_true, bne_iff_ne, Bool.or_eq_true,
    Bool.not_eq_true', beq_iff_eq] at hchar
  exact ⟨hchar.1, fun hblank => hchar.2.resolve_left (by simp [hblank])⟩

theorem nameChars_cases (name : ByteString) :
    (∀ c ∈ nameChars name, isWordChar c = true) ∨
      ∃ q, nameChars name = '"' :: q ++ ['"'] ∧ '"' ∉ q ∧
        (0x20 ∉ name.bytes → ∀ c ∈ q, isBlank c = false) := by
  unfold nameChars quoteName
  by_cases hplain : name.bytes.all isPlainByte = true
  · rw [if_pos hplain]
    left
    rw [List.all_eq_true] at hplain
    have hascii := characters_of_ascii fun b hb => plainByte_ascii (hplain b hb)
    intro c hc
    simp only [ByteString.text, ofUtf8, hascii, String.toList_ofList, List.map_map, List.mem_map,
      Function.comp_apply] at hc
    obtain ⟨b, hb, rfl⟩ := hc
    exact isWordChar_of_plainByte (hplain b hb)
  · rw [if_neg hplain]
    right
    refine ⟨name.bytes.flatMap escapeByte, String.toList_ofList, ?_, ?_⟩
    · intro hq
      obtain ⟨b, -, hb⟩ := List.mem_flatMap.mp hq
      exact (escapeByte_chars hb).1 rfl
    · intro hspace c hc
      obtain ⟨b, hmem, hb⟩ := List.mem_flatMap.mp hc
      by_contra hblank
      rw [Bool.not_eq_false] at hblank
      exact hspace ((escapeByte_chars hb).2 hblank ▸ hmem)

abbrev digits (n : Nat) : List Char := Nat.toDigits 10 n

theorem isDigit_of_mem_digits {n : Nat} {c : Char} (h : c ∈ digits n) : c.isDigit = true :=
  Nat.isDigit_of_mem_toDigits (by decide) (by decide) h

theorem exists_digits (n : Nat) : ∃ d ds, digits n = d :: ds ∧ d.isDigit = true := by
  obtain ⟨d, ds, hd⟩ := List.exists_cons_of_ne_nil (Nat.toDigits_ne_nil (n := n) (b := 10))
  exact ⟨d, ds, hd, isDigit_of_mem_digits (n := n) (by simp [hd])⟩

theorem dropBlanks_digits (n : Nat) : dropBlanks (digits n) = digits n :=
  dropBlanks_of_word fun _ hc => isWordChar_of_isDigit (isDigit_of_mem_digits hc)

def joined (items : List (List Char)) : List Char := [',', ' '].intercalate items

theorem joined_cons_cons (a b : List Char) (items : List (List Char)) :
    joined (a :: b :: items) = a ++ ',' :: ' ' :: joined (b :: items) := by
  simp [joined, List.intercalate_cons_cons]

end Text

namespace IR

open Text

def Ty.chars (t : Ty) : List Char := t.text.toList

def Ty.name? : Ty → Option ByteString
  | .struct (.named n) _ _ | .incomplete n | .named n => some n
  | _ => none

theorem Ty.eq_of_name? {t : Ty} {n : ByteString} (h : t.name? = some n) :
    t = .named n ∨ t = .incomplete n ∨ ∃ packed fields, t = .struct (.named n) packed fields := by
  unfold name? at h
  split at h <;> cases h <;> simp

def Ty.isWord : Ty → Bool
  | .void | .label | .token | .metadata | .mmx | .float _ | .int _ => true
  | _ => false

def paramItems (params : List Ty) (variadic : Bool) : List (List Char) :=
  params.map Ty.chars ++ if variadic then [['.', '.', '.']] else []

theorem mem_paramItems {ps : List Ty} {variadic : Bool} {i : List Char} :
    i ∈ paramItems ps variadic ↔
      (∃ p ∈ ps, p.chars = i) ∨ (variadic = true ∧ i = ['.', '.', '.']) := by
  cases variadic <;> simp [paramItems]

/-- A property that types have if they are printed as words or names, and that a type has if the
types printed in it have it. -/
structure Ty.Hereditary (P : Ty → Prop) : Prop where
  word : ∀ t, t.isWord = true → P t
  name : ∀ t n, t.name? = some n → P t
  ptr : ∀ space e, P e → P (.ptr space e)
  array : ∀ len e, P e → P (.array len e)
  vector : ∀ scalable len e, P e → P (.vector scalable len e)
  func : ∀ r ps variadic, P r → (∀ p ∈ ps, P p) → P (.func r ps variadic)
  body : ∀ occurrence packed fields, (∀ f ∈ fields, P f) →
    P (.struct (.literal occurrence) packed fields)

mutual

theorem Ty.Hereditary.all {P : Ty → Prop} (h : Hereditary P) : (t : Ty) → P t
  | .ptr space e => h.ptr space e (h.all e)
  | .array len e => h.array len e (h.all e)
  | .vector scalable len e => h.vector scalable len e (h.all e)
  | .func r ps variadic => h.func r ps variadic (h.all r) (h.all_of_mem ps)
  | .struct (.named n) _ _ => h.name _ n rfl
  | .struct (.literal occurrence) packed fields =>
    h.body occurrence packed fields (h.all_of_mem fields)
  | .incomplete n | .named n => h.name _ n rfl
  | .void | .label | .token | .metadata | .mmx | .float _ | .int _ => h.word _ rfl

theorem Ty.Hereditary.all_of_mem {P : Ty → Prop} (h : Hereditary P) : (ts : List Ty) → ∀ t ∈ ts, P t
  | [] => nofun
  | t :: ts => List.forall_mem_cons.mpr ⟨h.all t, h.all_of_mem ts⟩

end

theorem Ty.chars_of_isWord {t : Ty} (h : t.isWord = true) : isLowerWord t.chars = true := by
  cases t with
  | float k => cases k <;> rfl
  | int bits =>
    have hchars : (Ty.int bits).chars = 'i' :: digits bits.toNat := by
      change ("i" ++ toString bits.toNat).toList = _
      simp [Nat.toList_repr]
    have hdigits : ∀ c ∈ digits bits.toNat, isWordChar c = true :=
      fun c hc => isWordChar_of_isDigit (isDigit_of_mem_digits hc)
    rw [hchars, isLowerWord_iff]
    refine ⟨?_, 'i', _, rfl, rfl⟩
    intro c hc
    rcases List.mem_cons.mp hc with rfl | hc
    · decide
    · exact hdigits c hc
  | void | label | token | metadata | mmx => rfl
  | _ => cases h

theorem Ty.chars_of_name? {t : Ty} {n : ByteString} (h : t.name? = some n) :
    t.chars = '%' :: nameChars n := by
  rcases eq_of_name? h with rfl | rfl | ⟨packed, fields, rfl⟩ <;> exact String.toList_append

theorem Ty.chars_ptr_zero (e : Ty) : (Ty.ptr 0 e).chars = e.chars ++ ['*'] := by
  change (e.text ++ "*").toList = _
  simp [chars]

theorem Ty.chars_ptr {space : Nat} (h : space ≠ 0) (e : Ty) :
    (Ty.ptr space e).chars =
      e.chars ++ " addrspace(".toList ++ digits space ++ [')', '*'] := by
  change (if space = 0 then _ else e.text ++ " addrspace(" ++ toString space ++ ")*").toList = _
  simp [chars, h, Nat.toList_repr]

theorem Ty.chars_array (len : UInt64) (e : Ty) :
    (Ty.array len e).chars = '[' :: digits len.toNat ++ ' ' :: 'x' :: ' ' :: e.chars ++ [']'] := by
  change ("[" ++ toString len.toNat ++ " x " ++ e.text ++ "]").toList = _
  simp [chars, Nat.toList_repr]

theorem Ty.chars_vector (scalable : Bool) (len : UInt64) (e : Ty) :
    (Ty.vector scalable len e).chars = '<' :: (if scalable then "vscale x ".toList else []) ++
      digits len.toNat ++ ' ' :: 'x' :: ' ' :: e.chars ++ ['>'] := by
  change ("<" ++ (if scalable then "vscale x " else "") ++ toString len.toNat ++ " x " ++ e.text ++
    ">").toList = _
  cases scalable <;> simp [chars, Nat.toList_repr]

theorem Ty.toList_texts (ts : List Ty) : (Ty.texts ts).map String.toList = ts.map Ty.chars := by
  rw [texts_eq_map, List.map_map]
  rfl

theorem Ty.chars_func (r : Ty) (ps : List Ty) (variadic : Bool) :
    (Ty.func r ps variadic).chars =
      r.chars ++ ' ' :: '(' :: joined (paramItems ps variadic) ++ [')'] := by
  have htext : (paramsText (Ty.texts ps) variadic).toList = joined (paramItems ps variadic) := by
    cases variadic <;>
      simp [paramsText, paramItems, joined, String.toList_intercalate, Ty.toList_texts]
  change (r.text ++ " (" ++ paramsText (Ty.texts ps) variadic ++ ")").toList = _
  simp [chars, htext]

theorem Ty.chars_body (occurrence : Nat) (packed : Bool) (fields : List Ty) :
    (Ty.struct (.literal occurrence) packed fields).chars =
      let inner := if fields.isEmpty then ['\x7b', '\x7d']
        else '\x7b' :: ' ' :: joined (fields.map Ty.chars) ++ [' ', '\x7d']
      if packed then '<' :: inner ++ ['>'] else inner := by
  have hempty : (Ty.texts fields).isEmpty = fields.isEmpty := by cases fields <;> rfl
  change (bodyText packed (Ty.texts fields)).toList = _
  cases packed <;> by_cases h : fields.isEmpty <;>
    simp [bodyText, hempty, h, joined, String.toList_intercalate, Ty.toList_texts]

end IR
end CallTargets
