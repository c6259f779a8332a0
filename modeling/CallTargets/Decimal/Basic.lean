/-!
# Decimal numbers and how they are written

A decimal number is a sign, significant digits and the place of the point. A style says between
which decimal exponents a number is written out and how the exponent is written otherwise.
-/
namespace CallTargets

/-- The number `0.d₁d₂… · 10 ^ point`, negated if `negative`. Zero has no digits. -/
structure Decimal where
  negative : Bool
  digits : List Nat
  point : Int
deriving DecidableEq, Repr, Inhabited

/-- Written out for decimal exponents in `[least, most)`, else with an exponent of at least
`exponentDigits` digits. -/
structure NumberStyle where
  least : Int
  most : Int
  exponentDigits : Nat
deriving DecidableEq, Repr, Inhabited

namespace Decimal

def digitChars (ds : List Nat) : List Char :=
  ds.map fun d => Char.ofNat (0x30 + d)

def positional (ds : List Nat) (point : Int) : List Char :=
  let chars := digitChars ds
  if point ≤ 0 then "0.".toList ++ List.replicate (-point).toNat '0' ++ chars
  else
    let n := point.toNat
    if ds.length ≤ n then chars ++ List.replicate (n - ds.length) '0'
    else chars.take n ++ '.' :: chars.drop n

def scientific (exponentDigits : Nat) (ds : List Nat) (exponent : Int) : List Char :=
  let chars := digitChars ds
  let head := match chars with
    | [] => ['0']
    | [c] => [c]
    | c :: rest => c :: '.' :: rest
  let magnitude := Nat.toDigits 10 exponent.natAbs
  let padded := List.replicate (exponentDigits - magnitude.length) '0' ++ magnitude
  head ++ 'e' :: (if exponent < 0 then '-' else '+') :: padded

def text (style : NumberStyle) (d : Decimal) : String :=
  let sign := if d.negative then ['-'] else []
  if d.digits.isEmpty then String.ofList (sign ++ ['0'])
  else
    let exponent := d.point - 1
    String.ofList (sign ++
      if style.least ≤ exponent ∧ exponent < style.most then positional d.digits d.point
      else scientific style.exponentDigits d.digits exponent)

def trimZeros (ds : List Nat) : List Nat :=
  (ds.reverse.dropWhile (· == 0)).reverse

/-- The number `n · 10 ^ exponent`. -/
def ofNat (negative : Bool) (n : Nat) (exponent : Int) : Decimal :=
  if n = 0 then ⟨negative, [], 0⟩
  else
    let ds := (Nat.toDigits 10 n).map fun c => c.toNat - 0x30
    ⟨negative, trimZeros ds, ds.length + exponent⟩

end Decimal
end CallTargets
