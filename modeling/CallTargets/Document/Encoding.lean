import CallTargets.Document.ReadError

/-!
# The characters of a document

A document is encoded in UTF-8, or in UTF-16 if it begins with a byte order mark that says so. All
bytes have to be valid, and apart from tabs and line ends there are no control characters.
-/
namespace CallTargets.Document

/-- Whether a code point may occur in a document. -/
def isAllowed (n : Nat) : Bool :=
  n == 0x09 || n == 0x0A || n == 0x0D || (0x20 ≤ n && n ≤ 0x7E) || n == 0x85 ||
    (0xA0 ≤ n && n ≤ 0xD7FF) || (0xE000 ≤ n && n ≤ 0xFFFD) || (0x10000 ≤ n && n ≤ 0x10FFFF)

private def allowed (n : Nat) : Except Fault Char :=
  if isAllowed n then .ok (Char.ofNat n) else .error .controlCharacter

/-- How many bytes a sequence has that begins with an octet, and the bits of the octet that
count. -/
private def octetWidth? (n : Nat) : Option (Nat × Nat) :=
  if n < 0x80 then some (1, n)
  else if 0xC0 ≤ n ∧ n < 0xE0 then some (2, n - 0xC0)
  else if 0xE0 ≤ n ∧ n < 0xF0 then some (3, n - 0xE0)
  else if 0xF0 ≤ n ∧ n < 0xF8 then some (4, n - 0xF0)
  else none

/-- The least code point that needs a number of octets. -/
private def leastOfWidth : Nat → Nat
  | 2 => 0x80
  | 3 => 0x800
  | 4 => 0x10000
  | _ => 0

private def addTrailing (value : Nat) : List UInt8 → Except Fault Nat
  | [] => .ok value
  | b :: bs =>
    if 0x80 ≤ b && b ≤ 0xBF then addTrailing (64 * value + (b.toNat - 0x80)) bs
    else .error .trailingOctet

/-- The first character of bytes in UTF-8, and how many further bytes it takes. -/
private def octetsChar (b : UInt8) (rest : List UInt8) : Except Fault (Char × Nat) :=
  match octetWidth? b.toNat with
  | none => .error .leadingOctet
  | some (width, value) =>
    if rest.length + 1 < width then .error .missingOctets
    else match addTrailing value (rest.take (width - 1)) with
      | .error e => .error e
      | .ok n =>
        if n < leastOfWidth width then .error .octetLength
        else if (0xD800 ≤ n ∧ n ≤ 0xDFFF) ∨ 0x10FFFF < n then .error .invalidCharacter
        else (allowed n).map (·, width - 1)

private def octets : List UInt8 → Nat → Except Fault (List Char)
  | [], _ => .ok []
  | _ :: rest, skip + 1 => octets rest skip
  | b :: rest, 0 =>
    match octetsChar b rest with
    | .error e => .error e
    | .ok (c, more) => (octets rest more).map (c :: ·)

/-- The 16-bit units of bytes; `big` says that the high byte comes first. -/
private def unitsOf (big : Bool) : List UInt8 → Except Fault (List Nat)
  | [] => .ok []
  | [_] => .error .halfUnit
  | a :: b :: rest =>
    let n := if big then 256 * a.toNat + b.toNat else 256 * b.toNat + a.toNat
    (unitsOf big rest).map (n :: ·)

private def unitChars : List Nat → Except Fault (List Char)
  | [] => .ok []
  | n :: rest =>
    if 0xDC00 ≤ n ∧ n ≤ 0xDFFF then .error .lowSurrogate
    else if 0xD800 ≤ n ∧ n ≤ 0xDBFF then
      match rest with
      | [] => .error .halfPair
      | m :: rest =>
        if 0xDC00 ≤ m ∧ m ≤ 0xDFFF then do
          let c ← allowed (0x10000 + 1024 * (n - 0xD800) + (m - 0xDC00))
          return c :: (← unitChars rest)
        else .error .noLowSurrogate
    else do
      let c ← allowed n
      return c :: (← unitChars rest)

/-- The characters of a document, without a byte order mark at its beginning. -/
def characters (bytes : List UInt8) : Except Fault (List Char) :=
  match bytes with
  | 0xFF :: 0xFE :: rest => unitsOf false rest >>= unitChars
  | 0xFE :: 0xFF :: rest => unitsOf true rest >>= unitChars
  | 0xEF :: 0xBB :: 0xBF :: rest => octets rest 0
  | _ => octets bytes 0

end CallTargets.Document
