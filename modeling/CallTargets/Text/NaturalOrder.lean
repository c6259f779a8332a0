import CallTargets.ByteString

/-!
# Natural order of names

Runs of decimal digits are compared by value, everything else byte by byte, so that `a2` stands
before `a10`. Between runs of one value the run with fewer leading zeros comes first.
-/
namespace CallTargets.Text

def digit (b : UInt8) : Bool := 0x30 ≤ b && b ≤ 0x39

/-- The first difference of two byte strings of one length, if there is one. -/
def firstDifference : List UInt8 → List UInt8 → Option Bool
  | a :: as, b :: bs => if a = b then firstDifference as bs else some (a < b)
  | _, _ => none

/-- Reads a digit run: its leading zeros, its remaining digits and what follows. -/
def digitRun (bs : List UInt8) : Nat × List UInt8 × List UInt8 :=
  let rest := bs.dropWhile (· == 0x30)
  (bs.length - rest.length, rest.takeWhile digit, rest.dropWhile digit)

def naturalLTBytes : Nat → Nat → Nat → List UInt8 → List UInt8 → Bool
  | 0, _, _, _, _ => false
  | _ + 1, _, _, _, [] => false
  | _ + 1, _, _, [], _ :: _ => true
  | fuel + 1, i, j, a :: as, b :: bs =>
    if digit a && digit b then
      let (za, da, ra) := digitRun (a :: as)
      let (zb, db, rb) := digitRun (b :: bs)
      if da.length ≠ db.length then da.length < db.length
      else match firstDifference da db with
        | some less => less
        | none =>
          if i + za ≠ j + zb then i + za < j + zb
          else naturalLTBytes fuel (i + za + da.length) (j + zb + db.length) ra rb
    else if a ≠ b then a < b
    else naturalLTBytes fuel (i + 1) (j + 1) as bs

/-- Whether `a` stands before `b` in natural order. Positions are counted from the start of each
name, so a difference in leading zeros decides at the end of the first run that has one. -/
def naturalLT (a b : ByteString) : Bool :=
  naturalLTBytes (a.length + 1) 0 0 a.bytes b.bytes

end CallTargets.Text
