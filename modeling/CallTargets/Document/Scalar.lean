import CallTargets.Document.Timestamp
import CallTargets.Text.Integer
import CallTargets.Text.Radix

/-!
# What scalars stand for

A plain scalar stands for a null, a truth value, a number, a date or a text, depending on how it
is spelled.
-/
namespace CallTargets.Document

inductive Scalar where
  | null
  | bool (b : Bool)
  | int (n : Int)
  | float (x : Float)
  | timestamp
  /-- The key that takes over the entries of another mapping. -/
  | merge
  | text (s : String)
deriving Inhabited

def Scalar.tag : Scalar → String
  | .null => "!!null"
  | .bool _ => "!!bool"
  | .int _ => "!!int"
  | .float _ => "!!float"
  | .timestamp => "!!timestamp"
  | .merge => "!!merge"
  | .text _ => "!!str"

/-! ### Decimal fractions -/

def spanDigits (cs : List Char) : List Char × List Char :=
  (cs.takeWhile Char.isDigit, cs.dropWhile Char.isDigit)

/-- The exponent at the end of a number; without one it is zero. -/
def readExponent? : List Char → Option Int
  | [] => some 0
  | c :: cs => if c = 'e' ∨ c = 'E' then Text.readInt? cs else none

/-- The floating-point number nearest to `m · 10 ^ e`; one that is too large is none. -/
def nearestFloat? (negative : Bool) (m : Nat) (e : Int) : Option Float :=
  let size := Int.ofNat (Nat.toDigits 10 m).length + e
  let x : Option Float :=
    if m = 0 ∨ size < -400 then some 0
    else if 400 < size then none
    else
      let x := Float.ofScientific m (e < 0) e.natAbs
      if x.isInf then none else some x
  x.map fun x => if negative then -x else x

def readFloat? (cs : List Char) : Option Float :=
  let (negative, cs) := match cs with
    | '-' :: rest => (true, rest)
    | '+' :: rest => (false, rest)
    | _ => (false, cs)
  let (whole, rest) := spanDigits cs
  let (fraction, rest, point) := match rest with
    | '.' :: more => let (ds, more) := spanDigits more; (ds, more, true)
    | _ => ([], rest, false)
  if whole.isEmpty && (!point || fraction.isEmpty) then none
  else match readExponent? rest with
    | none => none
    | some e => nearestFloat? negative (Text.digitsValue (whole ++ fraction)) (e - fraction.length)

/-! ### Integers -/

/-- A number in a base with its sign behind the mark of the base. -/
def readMarked? (cs : List Char) : Option Int :=
  match cs with
  | '0' :: 'b' :: rest => Text.readInBase? 2 rest
  | '0' :: 'o' :: rest => Text.readInBase? 8 rest
  | _ => none

/-- The integer that a scalar spells; large ones may reach `2 ^ 64`. -/
def readInteger? (cs : List Char) : Option Int :=
  match Text.readSigned cs, Text.readWord cs with
  | .ok n, _ => some n
  | .error _, .ok n => some (Int.ofNat n)
  | .error _, .error _ => readMarked? cs

/-! ### Resolution -/

def infinity : Float := 1 / 0

def valueWords : List (String × Scalar) :=
  [("", .null), ("~", .null), ("null", .null), ("Null", .null), ("NULL", .null),
   ("true", .bool true), ("True", .bool true), ("TRUE", .bool true),
   ("false", .bool false), ("False", .bool false), ("FALSE", .bool false),
   (".nan", .float (0 / 0)), (".NaN", .float (0 / 0)), (".NAN", .float (0 / 0)),
   (".inf", .float infinity), (".Inf", .float infinity), (".INF", .float infinity),
   ("+.inf", .float infinity), ("+.Inf", .float infinity), ("+.INF", .float infinity),
   ("-.inf", .float (-infinity)), ("-.Inf", .float (-infinity)), ("-.INF", .float (-infinity)),
   ("<<", .merge)]

/-- What a scalar without quotes stands for; dates are recognized only if they are asked for. -/
def Scalar.ofPlain (dates : Bool) (s : String) : Scalar :=
  match valueWords.find? fun w => w.1 == s with
  | some (_, v) => v
  | none =>
    match s.toList with
    | [] => .text s
    | c :: cs =>
      if c.isDigit || c == '+' || c == '-' then
        let digits := (c :: cs).filter (· != '_')
        if dates && isTimestamp (c :: cs) then .timestamp
        else match readInteger? digits, readFloat? digits with
          | some n, _ => .int n
          | none, some x => .float x
          | none, none => .text s
      else if c == '.' then
        match readFloat? (c :: cs) with
        | some x => .float x
        | none => .text s
      else .text s

end CallTargets.Document
