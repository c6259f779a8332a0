import CallTargets.ByteString

/-!
# White space

The characters with the Unicode property `White_Space`, and the two operations that need them:
removing every blank from a text and trimming a text at both ends.
-/
namespace CallTargets.Text

/-- The characters of the Unicode property `White_Space`. -/
def isBlank (c : Char) : Bool :=
  let n := c.toNat
  (0x9 ≤ n && n ≤ 0xD) || n == 0x20 || n == 0x85 || n == 0xA0 || n == 0x1680 ||
    (0x2000 ≤ n && n ≤ 0x200A) || n == 0x2028 || n == 0x2029 || n == 0x202F || n == 0x205F ||
    n == 0x3000

def dropBlanks (cs : List Char) : List Char :=
  cs.filter fun c => !isBlank c

def trim (s : String) : String :=
  String.ofList ((s.toList.dropWhile isBlank).reverse.dropWhile isBlank).reverse

/-- A byte string without its leading and trailing blanks. -/
def trimBytes (b : ByteString) : ByteString :=
  let blank (p : Char × List UInt8) : Bool := isBlank p.1
  let kept := ((characters b.bytes).dropWhile blank).reverse.dropWhile blank
  ⟨kept.reverse.flatMap Prod.snd⟩

end CallTargets.Text
