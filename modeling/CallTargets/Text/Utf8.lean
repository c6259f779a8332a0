/-!
# Text from bytes

Reads UTF-8. A byte that starts no valid sequence is read as U+FFFD, so reading never fails.
-/
namespace CallTargets.Text

private def continuation? (b : UInt8) : Option Nat :=
  if 0x80 ≤ b && b ≤ 0xBF then some (b.toNat - 0x80) else none

/-- The first character of a byte string and the number of further bytes it takes. -/
private def firstChar? : List UInt8 → Option (Char × Nat)
  | [] => none
  | a :: rest =>
    let n := a.toNat
    if n < 0x80 then some (Char.ofNat n, 0)
    else match rest.head? >>= continuation? with
      | none => none
      | some x =>
        if 0xC2 ≤ n ∧ n ≤ 0xDF then some (Char.ofNat ((n - 0xC0) * 64 + x), 1)
        else match rest.tail.head? >>= continuation? with
          | none => none
          | some y =>
            let v := (n - 0xE0) * 4096 + x * 64 + y
            if 0xE0 ≤ n ∧ n ≤ 0xEF then
              if v < 0x800 ∨ (0xD800 ≤ v ∧ v ≤ 0xDFFF) then none else some (Char.ofNat v, 2)
            else match rest.tail.tail.head? >>= continuation? with
              | none => none
              | some z =>
                let w := (n - 0xF0) * 262144 + x * 4096 + y * 64 + z
                if 0xF0 ≤ n ∧ n ≤ 0xF4 ∧ 0x10000 ≤ w ∧ w ≤ 0x10FFFF then some (Char.ofNat w, 3)
                else none

private def decode : List UInt8 → Nat → List (Char × List UInt8)
  | [], _ => []
  | _ :: rest, skip + 1 => decode rest skip
  | a :: rest, 0 =>
    match firstChar? (a :: rest) with
    | some (c, more) => (c, a :: rest.take more) :: decode rest more
    | none => (Char.ofNat 0xFFFD, [a]) :: decode rest 0

/-- The characters of a byte string, each with the bytes it is read from. -/
def characters (bytes : List UInt8) : List (Char × List UInt8) :=
  decode bytes 0

/-- Below 128 every byte is a character. -/
theorem characters_of_ascii {bytes : List UInt8} (h : ∀ b ∈ bytes, b.toNat < 0x80) :
    characters bytes = bytes.map fun b => (Char.ofNat b.toNat, [b]) := by
  unfold characters
  induction bytes with
  | nil => rfl
  | cons b bytes ih =>
    have hb : b.toNat < 0x80 := h b List.mem_cons_self
    simp only [decode, firstChar?, hb, if_true, List.take_zero, List.map_cons]
    rw [ih fun b hb => h b (List.mem_cons_of_mem _ hb)]

/-- A byte below 128 continues no character, so in front of it characters end as at the end. -/
private theorem firstChar?_concat {b : UInt8} (hb : b.toNat < 0x80) (a : UInt8)
    (rest : List UInt8) : firstChar? (a :: (rest ++ [b])) = firstChar? (a :: rest) := by
  have hb : continuation? b = none := by
    have hlt : ¬ (0x80 : UInt8) ≤ b := by
      rw [UInt8.le_iff_toNat_le]
      exact Nat.not_le.mpr hb
    simp [continuation?, hlt]
  match rest with
  | [] => simp [firstChar?, hb]
  | [x] => simp [firstChar?, hb]
  | [x, y] => simp [firstChar?, hb]
  | x :: y :: z :: rest => simp [firstChar?]

private theorem firstChar?_length {a : UInt8} {rest : List UInt8} {c : Char} {more : Nat}
    (h : firstChar? (a :: rest) = some (c, more)) : more ≤ rest.length := by
  match rest with
  | [] => grind [firstChar?]
  | [x] => grind [firstChar?]
  | [x, y] => grind [firstChar?]
  | x :: y :: z :: rest => grind [firstChar?]

private theorem decode_concat {b : UInt8} (hb : b.toNat < 0x80) (bytes : List UInt8) (skip : Nat)
    (hskip : skip ≤ bytes.length) :
    decode (bytes ++ [b]) skip = decode bytes skip ++ [(Char.ofNat b.toNat, [b])] := by
  induction bytes generalizing skip with
  | nil =>
    obtain rfl : skip = 0 := Nat.le_zero.mp hskip
    simp [decode, firstChar?, hb]
  | cons a rest ih =>
    cases skip with
    | succ skip =>
      simp only [List.cons_append, decode]
      exact ih skip (Nat.le_of_succ_le_succ hskip)
    | zero =>
      simp only [List.cons_append, decode, firstChar?_concat hb]
      cases hfirst : firstChar? (a :: rest) with
      | none => simp [ih 0 (Nat.zero_le _)]
      | some p =>
        obtain ⟨c, more⟩ := p
        have hmore := firstChar?_length hfirst
        simp [ih more hmore, List.take_append_of_le_length hmore]

/-- A byte below 128 at the end is a character of its own, whatever stands before it. -/
theorem characters_concat {b : UInt8} (hb : b.toNat < 0x80) (bytes : List UInt8) :
    characters (bytes ++ [b]) = characters bytes ++ [(Char.ofNat b.toNat, [b])] :=
  decode_concat hb bytes 0 (Nat.zero_le _)

def ofUtf8 (bytes : List UInt8) : String :=
  String.ofList ((characters bytes).map Prod.fst)

end CallTargets.Text
