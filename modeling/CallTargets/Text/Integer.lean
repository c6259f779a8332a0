/-!
# Reading integers

An optional sign and decimal digits, nothing else. A number that does not fit the wanted width is
no number.
-/
namespace CallTargets.Text

def digitsValue (cs : List Char) : Nat :=
  cs.foldl (fun n c => 10 * n + (c.toNat - '0'.toNat)) 0

/-- A non-empty string of decimal digits. -/
def readNat? (cs : List Char) : Option Nat :=
  if cs ≠ [] ∧ cs.all Char.isDigit then some (digitsValue cs) else none

/-- A decimal integer of any size: an optional sign and digits. -/
def readInt? : List Char → Option Int
  | '+' :: cs => (readNat? cs).map Int.ofNat
  | '-' :: cs => (readNat? cs).map fun n => -Int.ofNat n
  | cs => (readNat? cs).map Int.ofNat

def fitsInt64 (n : Int) : Bool :=
  Int64.minValue.toInt ≤ n && n ≤ Int64.maxValue.toInt

def readInt64? (s : String) : Option Int :=
  (readInt? s.toList).filter fitsInt64

/-- A decimal number without a sign, below `bound`. -/
def readBelow? (bound : Nat) (s : String) : Option Nat :=
  (readNat? s.toList).filter (· < bound)

end CallTargets.Text
