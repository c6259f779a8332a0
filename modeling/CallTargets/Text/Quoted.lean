import CallTargets.ByteString

/-!
# Quoted names

In IR text a name that is not a plain identifier stands between double quotes. Inside them a
backslash and two hexadecimal digits stand for a byte, and a doubled backslash for itself.
-/
namespace CallTargets.Text

def isPlainByte (b : UInt8) : Bool :=
  let n := b.toNat
  (0x30 ≤ n && n ≤ 0x39) || (0x41 ≤ n && n ≤ 0x5A) || (0x61 ≤ n && n ≤ 0x7A) ||
    n == 0x24 || n == 0x2D || n == 0x2E || n == 0x5F

def hexDigitUpper (n : Nat) : Char :=
  if n < 10 then Char.ofNat (0x30 + n) else Char.ofNat (0x41 + (n - 10))

def hexValue? (c : Char) : Option Nat :=
  if '0' ≤ c ∧ c ≤ '9' then some (c.toNat - 0x30)
  else if 'a' ≤ c ∧ c ≤ 'f' then some (c.toNat - 0x61 + 10)
  else if 'A' ≤ c ∧ c ≤ 'F' then some (c.toNat - 0x41 + 10)
  else none

def escapeByte (b : UInt8) : List Char :=
  let n := b.toNat
  if n < 0x20 || 0x7E < n || n == 0x22 || n == 0x5C then
    ['\\', hexDigitUpper (n / 16), hexDigitUpper (n % 16)]
  else [Char.ofNat n]

/-- A name as it is printed: as it is when all its bytes are plain, else quoted. -/
def quoteName (name : ByteString) : String :=
  if name.bytes.all isPlainByte then name.text
  else String.ofList ('"' :: name.bytes.flatMap escapeByte ++ ['"'])

/-- The bytes that the text between two quotes stands for. -/
def unescape : List UInt8 → List UInt8
  | 0x5C :: 0x5C :: rest => 0x5C :: unescape rest
  | 0x5C :: a :: b :: rest =>
    match hexValue? (Char.ofNat a.toNat), hexValue? (Char.ofNat b.toNat) with
    | some x, some y => (16 * x + y).toUInt8 :: unescape rest
    | _, _ => 0x5C :: unescape (a :: b :: rest)
  | c :: rest => c :: unescape rest
  | [] => []

end CallTargets.Text
