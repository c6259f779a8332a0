import CallTargets.Text.Integer

/-!
# Integers with a base

A number may begin with `0b`, `0o` or `0x`, a leading zero means base eight, and underscores may
separate digits. Reading goes from left to right, so a number that has become too large is out of
range whatever follows.
-/
namespace CallTargets.Text

inductive NumberError where
  | malformed
  | outOfRange
deriving DecidableEq, Repr, Inhabited

def NumberError.text : NumberError → String
  | .malformed => "invalid syntax"
  | .outOfRange => "value out of range"

def digitValue? (c : Char) : Option Nat :=
  if c.isDigit then some (c.toNat - 0x30)
  else if c.isLower then some (c.toNat - 0x61 + 10)
  else if c.isUpper then some (c.toNat - 0x41 + 10)
  else none

/-- The base that a spelling begins with, and the digits after that. -/
def baseOf : List Char → Nat × List Char
  | '0' :: mark :: c :: rest =>
    match mark.toLower with
    | 'b' => (2, c :: rest)
    | 'o' => (8, c :: rest)
    | 'x' => (16, c :: rest)
    | _ => (8, mark :: c :: rest)
  | '0' :: rest => (8, rest)
  | cs => (10, cs)

/-- Reads digits behind those read already, with `n` as their value. -/
def readDigits (base : Nat) : List Char → Nat → Except NumberError Nat
  | [], n => .ok n
  | c :: cs, n =>
    if c = '_' then readDigits base cs n
    else match digitValue? c with
      | none => .error .malformed
      | some d =>
        if base ≤ d then .error .malformed
        else if UInt64.size ≤ n * base + d then .error .outOfRange
        else readDigits base cs (n * base + d)

/-- Whether every underscore stands between digits; a mark of the base counts as one. -/
def separatorsFit (digitBefore : Bool) : List Char → Bool
  | [] => digitBefore
  | c :: cs => if c = '_' then digitBefore && separatorsFit false cs else separatorsFit true cs

/-- A number without a sign, below `2 ^ 64`. -/
def readWord (cs : List Char) : Except NumberError Nat :=
  if cs.isEmpty then .error .malformed
  else
    let (base, digits) := baseOf cs
    match readDigits base digits 0 with
    | .error e => .error e
    | .ok n =>
      if digits.contains '_' && !separatorsFit (base != 10) digits then .error .malformed
      else .ok n

/-- A number with an optional sign, of the signed 64-bit range. -/
def readSigned (cs : List Char) : Except NumberError Int :=
  let (negative, digits) := match cs with
    | '-' :: rest => (true, rest)
    | '+' :: rest => (false, rest)
    | _ => (false, cs)
  match readWord digits with
  | .error e => .error e
  | .ok n =>
    let value := if negative then -Int.ofNat n else Int.ofNat n
    if fitsInt64 value then .ok value else .error .outOfRange

/-- A number in a given base, with an optional sign, of the signed 64-bit range. -/
def readInBase? (base : Nat) (cs : List Char) : Option Int :=
  let (negative, digits) := match cs with
    | '-' :: rest => (true, rest)
    | '+' :: rest => (false, rest)
    | _ => (false, cs)
  match digits.isEmpty, readDigits base digits 0 with
  | false, .ok n =>
    let value := if negative then -Int.ofNat n else Int.ofNat n
    if fitsInt64 value then some value else none
  | _, _ => none

def readBool? (s : String) : Option Bool :=
  if ["1", "t", "T", "true", "TRUE", "True"].contains s then some true
  else if ["0", "f", "F", "false", "FALSE", "False"].contains s then some false
  else none

end CallTargets.Text
