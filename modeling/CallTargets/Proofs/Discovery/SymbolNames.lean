import CallTargets.IR.Reader
import Mathlib.Tactic

/-!
# Names of functions

No two functions of a module have the same identifier. They may still be known by the same name: a
name that is a decimal number is shown with the number printed anew, so that `"7"` and `"007"` look
alike. If no function is named like a number, their names are as different as their identifiers.
-/
namespace CallTargets

open IR

/-! ### Numbers as text -/

theorem Text.readNat?_digits (n : Nat) : Text.readNat? (Nat.toDigits 10 n) = some n := by
  have hne : Nat.toDigits 10 n ≠ [] := Nat.toDigits_ne_nil
  have hdigits : (Nat.toDigits 10 n).all Char.isDigit = true :=
    List.all_eq_true.mpr fun _ hc => Nat.isDigit_of_mem_toDigits (by decide) (by decide) hc
  rw [readNat?, if_pos ⟨hne, hdigits⟩]
  exact congrArg some Nat.ofDigitChars_ten_toDigits

theorem Text.readInt?_toString (n : Int) : Text.readInt? (toString n).toList = some n := by
  cases n with
  | ofNat n =>
    have hchars : (toString (Int.ofNat n)).toList = Nat.toDigits 10 n := by
      simp [toString, Int.repr]
    obtain ⟨c, cs, hcons⟩ := List.exists_cons_of_ne_nil (Nat.toDigits_ne_nil (n := n) (b := 10))
    have hdigit : c.isDigit = true :=
      Nat.isDigit_of_mem_toDigits (b := 10) (n := n) (by decide) (by decide) (by simp [hcons])
    have hread := readNat?_digits n
    rw [hchars]
    rw [hcons] at hread ⊢
    unfold readInt?
    split
    · next heq =>
      cases heq
      cases hdigit
    · next heq =>
      cases heq
      cases hdigit
    · simp [hread]
  | negSucc n =>
    have hchars : (toString (Int.negSucc n)).toList = '-' :: Nat.toDigits 10 (n + 1) := by
      simp [toString, Int.repr]
    rw [hchars, readInt?, readNat?_digits]
    rfl

theorem ByteString.bytes_ofList {cs : List Char} (h : ∀ c ∈ cs, c.toNat < 0x80) :
    (ByteString.ofText (String.ofList cs)).bytes = cs.map Char.toUInt8 := by
  simp only [ByteString.ofText, String.toUTF8, String.toByteArray_ofList, List.utf8Encode,
    List.data_toByteArray]
  induction cs with
  | nil => rfl
  | cons c cs ih =>
    obtain ⟨hc, hrest⟩ := List.forall_mem_cons.mp h
    have hsize : c.utf8Size = 1 := by
      rw [Char.utf8Size_eq_one_iff, UInt32.le_iff_toNat_le]
      exact Nat.lt_succ_iff.mp hc
    simpa [String.utf8EncodeChar_eq_singleton hsize] using ih hrest

theorem ByteString.text_ofList {cs : List Char} (h : ∀ c ∈ cs, c.toNat < 0x80) :
    (ByteString.ofText (String.ofList cs)).text = String.ofList cs := by
  have hbyte : ∀ c ∈ cs, c.toUInt8.toNat = c.toNat := by
    intro c hc
    have hlt : c.toNat < 256 := Nat.lt_trans (h c hc) (by decide)
    exact Nat.mod_eq_of_lt hlt
  have hascii : ∀ b ∈ cs.map Char.toUInt8, b.toNat < 0x80 := by
    intro b hb
    obtain ⟨c, hc, rfl⟩ := List.mem_map.mp hb
    rw [hbyte c hc]
    exact h c hc
  rw [ByteString.text, Text.ofUtf8, bytes_ofList h, Text.characters_of_ascii hascii,
    String.ofList_inj, List.map_map, List.map_map]
  conv_rhs => rw [← List.map_id cs]
  apply List.map_congr_left
  intro c hc
  simp [hbyte c hc]

theorem ascii_of_toString (n : Int) : ∀ c ∈ (toString n).toList, c.toNat < 0x80 := by
  have hdigit (n : Nat) : ∀ c ∈ Nat.toDigits 10 n, c.toNat < 0x80 := by
    intro c hc
    have h : c.isDigit = true := Nat.isDigit_of_mem_toDigits (by decide) (by decide) hc
    simp only [Char.isDigit, Bool.and_eq_true, decide_eq_true_eq, UInt32.le_iff_toNat_le] at h
    exact Nat.lt_of_le_of_lt h.2 (by decide)
  cases n with
  | ofNat n => simpa [toString, Int.repr] using hdigit n
  | negSucc n => simpa [toString, Int.repr] using hdigit (n + 1)

/-! ### Identifiers and names -/

/-- Whether a symbol is numbered, or has a name that is no decimal number. -/
def IR.Ident.isPlain : Ident → Bool
  | .numbered _ => true
  | .named name => (Text.readInt? name.text.toList).isNone

namespace IR.Ident

theorem name_named {name : ByteString} (h : (named name).isPlain = true) :
    (named name).name = name := by
  have hread : Text.readInt64? name.text = none := by
    rw [Text.readInt64?, Option.isNone_iff_eq_none.mp h]
    rfl
  rw [Ident.name, hread]

theorem text_name_numbered (n : Int) : (numbered n).name.text = toString n := by
  have htext := ByteString.text_ofList (ascii_of_toString n)
  rw [String.ofList_toList] at htext
  exact htext

theorem name_numbered_ne {name : ByteString} (h : (named name).isPlain = true) (n : Int) :
    (numbered n).name ≠ name := by
  rintro rfl
  have hread := Option.isNone_iff_eq_none.mp h
  rw [text_name_numbered, Text.readInt?_toString] at hread
  cases hread

theorem eq_of_name {i j : Ident} (hi : i.isPlain = true) (hj : j.isPlain = true)
    (h : i.name = j.name) : i = j := by
  cases i with
  | numbered n =>
    cases j with
    | numbered k =>
      have htext := congrArg ByteString.text h
      rw [text_name_numbered, text_name_numbered] at htext
      have hread := Text.readInt?_toString n
      rw [htext, Text.readInt?_toString] at hread
      rw [Option.some_inj.mp hread]
    | named name => exact absurd (h.trans (name_named hj)) (name_numbered_ne hj n)
  | named name =>
    cases j with
    | numbered k => exact absurd (h.symm.trans (name_named hi)) (name_numbered_ne hi k)
    | named name' => rw [← name_named hi, h, name_named hj]

end IR.Ident

/-- The functions of a module that was read from a text are known by different names, if none of
them is named like a number. -/
theorem IR.Module.names_nodup {text : ByteString} {m : Module} (h : Module.ofBytes? text = some m)
    (hplain : ∀ f ∈ m.funcs, f.ident.isPlain = true) : (m.funcs.map Func.name).Nodup := by
  have hidents := Module.nodup_of_ofBytes? h
  rw [List.Nodup, List.pairwise_map] at hidents ⊢
  apply hidents.imp_of_mem
  intro f g hf hg hne hname
  exact hne (Ident.eq_of_name (hplain f hf) (hplain g hg) hname)

/-- Names that are numbers of the same value are shown alike. -/
example : (Ident.named "7").name = (Ident.named "007").name := by decide

end CallTargets
