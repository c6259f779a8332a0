/-!
# Lines of a file

Lines end at a newline, and one carriage return before it is dropped. A line that does not fit the
given limit ends the reading.
-/
namespace CallTargets.Text

/-- The lines read, and whether a line was too long to go on. -/
structure Lines where
  lines : List (List UInt8)
  tooLong : Bool
deriving DecidableEq, Repr, Inhabited

/-- A line whose bytes are given last first, without a carriage return at its end. -/
def finishLine (reversed : List UInt8) : List UInt8 :=
  match reversed with
  | 0x0D :: rest => rest.reverse
  | _ => reversed.reverse

/-- Reads on, with the bytes of the present line last first, their number, and the lines done last
first. -/
def splitLines (limit : Nat) :
    List UInt8 → List UInt8 → Nat → List (List UInt8) → Lines
  | [], line, n, done =>
    if limit ≤ n then ⟨done.reverse, true⟩
    else if n = 0 then ⟨done.reverse, false⟩
    else ⟨(finishLine line :: done).reverse, false⟩
  | b :: bs, line, n, done =>
    if limit ≤ n then ⟨done.reverse, true⟩
    else if b = 0x0A then splitLines limit bs [] 0 (finishLine line :: done)
    else splitLines limit bs (b :: line) (n + 1) done

/-- The lines of a text of bytes, each shorter than `limit`. -/
def lines (limit : Nat) (bytes : List UInt8) : Lines :=
  splitLines limit bytes [] 0 []

end CallTargets.Text
