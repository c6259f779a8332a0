import CallTargets.Text.Visible

/-!
# Literals

A text or character between quotes, as messages show it. Printable characters stand for
themselves, all others are escaped.
-/
namespace CallTargets.Text

def isPrintable (c : Char) : Bool :=
  let n := c.toNat
  if n < 0x80 then 0x20 ≤ n && n < 0x7F else inRanges n visibleRanges

/-- The last digits of a number in lower-case hexadecimal. -/
def hexDigits : Nat → Nat → List Char
  | 0, _ => []
  | width + 1, n => hexDigits width (n / 16) ++ [(Nat.toDigits 16 (n % 16)).headD '0']

def literalChar (quote c : Char) : List Char :=
  if c = quote ∨ c = '\\' then ['\\', c]
  else if isPrintable c then [c]
  else
    let n := c.toNat
    match n with
    | 7 => ['\\', 'a']
    | 8 => ['\\', 'b']
    | 9 => ['\\', 't']
    | 10 => ['\\', 'n']
    | 11 => ['\\', 'v']
    | 12 => ['\\', 'f']
    | 13 => ['\\', 'r']
    | _ =>
      if n < 0x80 then '\\' :: 'x' :: hexDigits 2 n
      else if n < 0x10000 then '\\' :: 'u' :: hexDigits 4 n
      else '\\' :: 'U' :: hexDigits 8 n

def literal (s : String) : String :=
  String.ofList ('"' :: s.toList.flatMap (literalChar '"') ++ ['"'])

private def apostrophe : Char := Char.ofNat 0x27

def characterLiteral (c : Char) : String :=
  String.ofList (apostrophe :: literalChar apostrophe c ++ [apostrophe])

def literals (l : List String) : String :=
  "[" ++ " ".intercalate (l.map literal) ++ "]"

end CallTargets.Text
