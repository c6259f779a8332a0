import CallTargets.Decimal.Basic

/-!
# Binary floating-point numbers in decimal

`shortest` takes the fewest digits that read back as the same number and, among those, the nearest
ones; `rounded` takes a given number of digits of the exact value, halves going to the even digit.
Both work on the exact value `mantissa · 2 ^ exponent`.
-/
namespace CallTargets

/-- A finite binary number, `mantissa · 2 ^ exponent`, negated if `negative`. -/
structure Binary where
  negative : Bool
  mantissa : Nat
  exponent : Int
  /-- The next number below is only half as far away as the next one above. -/
  lowerHalf : Bool
deriving DecidableEq, Repr, Inhabited

/-- The number a 64-bit pattern stands for; patterns of infinities and of no number give none. -/
def Binary.ofBits? (bits : UInt64) : Option Binary :=
  let negative := bits >>> 63 == 1
  let biased := (bits >>> 52 &&& 0x7ff).toNat
  let fraction := (bits &&& 0xfffffffffffff).toNat
  if biased = 2047 then none
  else if biased = 0 then some ⟨negative, fraction, -1074, false⟩
  else some ⟨negative, 0x10000000000000 + fraction, Int.ofNat biased - 1075,
    fraction == 0 && 1 < biased⟩

namespace Binary

/-- A quotient of naturals as `⌊num / den⌋` when a power of ten is applied to it. -/
def scaled (num den : Nat) (power : Int) : Nat × Nat :=
  if 0 ≤ power then (num * Nat.pow 10 power.toNat, den)
  else (num, den * Nat.pow 10 (-power).toNat)

/-- The value as a fraction, multiplied by four so that half steps are whole. -/
def quarters (b : Binary) (m : Nat) : Nat × Nat :=
  if 0 ≤ b.exponent then (m <<< b.exponent.toNat, 4) else (m, 4 <<< (-b.exponent).toNat)

/-- The least `k` with `num / den < 10 ^ k`, searched from `k` upward. -/
def pointFrom (num den : Nat) : Nat → Int → Int
  | 0, k => k
  | fuel + 1, k =>
    let (n, d) := scaled num den (-k)
    if n < d then k else pointFrom num den fuel (k + 1)

/-- The place of the point: the least `k` with the value below `10 ^ k`. -/
def point (num den : Nat) : Int :=
  pointFrom num den 1000 (Int.ofNat (Nat.log2 num * 30103 / 100000) -
    Int.ofNat ((Nat.log2 den + 1) * 30103 / 100000 + 2))

/-- The nearest whole number to a fraction, a half to the even neighbour. -/
def nearest (num den : Nat) : Nat :=
  let q := num / den
  let r := num % den
  if 2 * r < den then q
  else if den < 2 * r then q + 1
  else if q % 2 = 0 then q else q + 1

/-- Whether `k · 10 ^ power` reads back as the number: it lies between the halfway points to the
neighbours, which belong to the number when its mantissa is even. -/
def readsBack (b : Binary) (k : Nat) (power : Int) : Bool :=
  let low := quarters b (4 * b.mantissa - if b.lowerHalf then 1 else 2)
  let high := quarters b (4 * b.mantissa + 2)
  let (kn, kd) := scaled k 1 power
  let inside (strict : Bool) : Bool :=
    if strict then low.1 * kd < kn * low.2 && kn * high.2 < high.1 * kd
    else low.1 * kd ≤ kn * low.2 && kn * high.2 ≤ high.1 * kd
  inside (b.mantissa % 2 == 1)

def shortestFrom (b : Binary) (num den : Nat) (place : Int) : Nat → Nat → Decimal
  | 0, n =>
    let (sn, sd) := scaled num den (Int.ofNat n - place)
    Decimal.ofNat b.negative (nearest sn sd) (place - Int.ofNat n)
  | fuel + 1, n =>
    let power := place - Int.ofNat n
    let (sn, sd) := scaled num den (-power)
    let below := sn / sd
    let candidates := (if b.readsBack below power then [below] else []) ++
      (if b.readsBack (below + 1) power then [below + 1] else [])
    match candidates with
    | [k] => Decimal.ofNat b.negative k power
    | _ :: _ => Decimal.ofNat b.negative (nearest sn sd) power
    | [] => shortestFrom b num den place fuel (n + 1)

/-- The fewest digits that read back, the nearest to the value among them. -/
def shortest (b : Binary) : Decimal :=
  if b.mantissa = 0 then ⟨b.negative, [], 0⟩
  else
    let (num, den) := quarters b (4 * b.mantissa)
    shortestFrom b num den (point num den) 17 1

/-- The value rounded to a number of significant digits. -/
def rounded (digits : Nat) (b : Binary) : Decimal :=
  if b.mantissa = 0 then ⟨b.negative, [], 0⟩
  else
    let (num, den) := quarters b (4 * b.mantissa)
    let power := point num den - Int.ofNat digits
    let (sn, sd) := scaled num den (-power)
    Decimal.ofNat b.negative (nearest sn sd) power

end Binary
end CallTargets
