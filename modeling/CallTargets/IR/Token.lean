import CallTargets.IR.Ident
import CallTargets.IR.Keyword
import CallTargets.Text.Quoted

/-!
# Tokens of IR text

Comments start at a semicolon and end with the line. A run of identifier characters is a word, a
number or, before a colon, a label; names after `@`, `%`, `$` and `!` may be quoted. The longest
token counts, and what begins no token is passed over. Each byte is read as the character of its
number.
-/
namespace CallTargets.IR

inductive Token where
  | word (s : String)
  | global (i : Ident)
  | loc (i : Ident)
  | label (i : Ident)
  | comdat (name : ByteString)
  | int (n : Int)
  | hexInt (signed : Bool) (n : Nat)
  | float
  | str (s : ByteString)
  | attrGroup (n : Nat)
  | metaId (n : Nat)
  | metaName (s : ByteString)
  | ellipsis
  | sym (c : Char)
deriving DecidableEq, Repr, Inhabited

namespace Token

private def nameChar (c : Char) : Bool :=
  c.isAlphanum || c == '-' || c == '$' || c == '.' || c == '_'

private def unescaped (cs : List Char) : ByteString :=
  ⟨Text.unescape (cs.map fun c => c.toNat.toUInt8)⟩

/-- What stands before the closing quote, and what follows the quote. -/
private def quoted? (cs : List Char) : Option (ByteString × List Char) :=
  match cs.dropWhile (· != '"') with
  | '"' :: rest => some (unescaped (cs.takeWhile (· != '"')), rest)
  | _ => none

/-- A name after its sigil: quoted, a number, or identifier characters. -/
private def ident? (cs : List Char) : Option (Ident × List Char) :=
  match cs with
  | '"' :: rest => (quoted? rest).map fun (name, rest) => (Ident.ofName name, rest)
  | c :: _ =>
    if c.isDigit then some (Ident.ofPlain (cs.takeWhile Char.isDigit), cs.dropWhile Char.isDigit)
    else if nameChar c then some (Ident.ofPlain (cs.takeWhile nameChar), cs.dropWhile nameChar)
    else none
  | [] => none

private def hexNumber? (cs : List Char) : Option Nat :=
  if cs.isEmpty then none
  else cs.foldlM (fun n c => (Text.hexValue? c).map (16 * n + ·)) 0

/-- Digits, a point, perhaps digits, perhaps an exponent, all behind an optional sign. -/
private def isFloatText (cs : List Char) : Bool :=
  let body := match cs with
    | '-' :: r => r
    | '+' :: r => r
    | r => r
  let rest := body.dropWhile Char.isDigit
  rest.length < body.length &&
    match rest with
    | '.' :: fraction =>
      match fraction.dropWhile Char.isDigit with
      | [] => true
      | e :: r =>
        (e == 'e' || e == 'E') &&
          (match r with
            | '-' :: ds => !ds.isEmpty && ds.all Char.isDigit
            | '+' :: ds => !ds.isEmpty && ds.all Char.isDigit
            | ds => !ds.isEmpty && ds.all Char.isDigit)
    | _ => false

private def isHexFloat (cs : List Char) : Bool :=
  match cs with
  | '0' :: 'x' :: rest =>
    let digits := match rest with
      | c :: ds => if c == 'K' || c == 'L' || c == 'M' || c == 'H' || c == 'R' then ds else c :: ds
      | [] => []
    (hexNumber? digits).isSome
  | _ => false

private def decimal? (cs : List Char) : Option Int :=
  if cs.head? == some '+' then none else Text.readInt? cs

/-- The token that a text without blanks is, other than a label. -/
private def ofRun? (run : List Char) : Option Token :=
  match decimal? run, run with
  | some n, _ => some (.int n)
  | none, 'u' :: '0' :: 'x' :: ds => (hexNumber? ds).map (Token.hexInt false)
  | none, 's' :: '0' :: 'x' :: ds => (hexNumber? ds).map (Token.hexInt true)
  | none, _ =>
    if run = ['.', '.', '.'] then some .ellipsis
    else if isFloatText run || isHexFloat run then some .float
    else if isKeyword run then some (.word (String.ofList run))
    else none

/-- The longest beginning of a run that is a token, among those of at most `n` characters. -/
private def longest? (run : List Char) : Nat → Option (Token × List Char)
  | 0 => none
  | n + 1 =>
    match ofRun? (run.take (n + 1)) with
    | some t => some (t, run.drop (n + 1))
    | none => longest? run n

/-- A run of identifier characters, which may begin with a sign. The sign of an exponent belongs
to the run. -/
private def takeRun (cs : List Char) : List Char × List Char :=
  let (sign, cs) := match cs with
    | '+' :: rest => (['+'], rest)
    | _ => ([], cs)
  let run := cs.takeWhile nameChar
  match run.getLast?, cs.dropWhile nameChar with
  | some e, '+' :: rest =>
    if e == 'e' || e == 'E' then
      (sign ++ run ++ '+' :: rest.takeWhile Char.isDigit, rest.dropWhile Char.isDigit)
    else (sign ++ run, '+' :: rest)
  | _, rest => (sign ++ run, rest)

/-- The token at the front of a run, which is passed over to the end if there is none. -/
private def ofFront (cs : List Char) : Option Token × List Char :=
  let (run, after) := takeRun cs
  match longest? run run.length with
  | some (t, left) => (some t, left ++ after)
  | none =>
    match cs with
    | '+' :: rest => (none, rest.dropWhile Char.isDigit)
    | _ => (none, cs.dropWhile nameChar)

private def isSymbol (c : Char) : Bool :=
  "()\x7b\x7d[]<>,=*|".toList.contains c

/-- What follows a text that begins no token: an open quote hides everything behind it. -/
private def passOver : List Char → List Char
  | '"' :: _ => []
  | rest => rest

/-- The first token of a text, if it begins with one, and what follows. -/
private def first : List Char → Option Token × List Char
  | [] => (none, [])
  | '@' :: rest =>
    match ident? rest with
    | some (i, rest) => (some (.global i), rest)
    | none => (none, passOver rest)
  | '%' :: rest =>
    match ident? rest with
    | some (i, rest) => (some (.loc i), rest)
    | none => (none, passOver rest)
  | '#' :: rest =>
    match Text.readNat? (rest.takeWhile Char.isDigit) with
    | some n => (some (.attrGroup n), rest.dropWhile Char.isDigit)
    | none => (none, rest)
  | '!' :: rest =>
    match Text.readNat? (rest.takeWhile Char.isDigit) with
    | some n => (some (.metaId n), rest.dropWhile Char.isDigit)
    | none =>
      let isPart (c : Char) : Bool := nameChar c || c == '\\'
      if (rest.takeWhile isPart).isEmpty then (some (.sym '!'), rest)
      else (some (.metaName (unescaped (rest.takeWhile isPart))), rest.dropWhile isPart)
  | '"' :: rest =>
    match quoted? rest with
    | some (name, ':' :: rest) => (some (.label (Ident.ofName name)), rest)
    | some (s, rest) => (some (.str s), rest)
    | none => (none, [])
  | c :: rest =>
    let run := (c :: rest).takeWhile nameChar
    match run, (c :: rest).dropWhile nameChar with
    | [], _ =>
      if c = '+' then ofFront (c :: rest)
      else if isSymbol c then (some (.sym c), rest)
      else (none, rest)
    | _ :: _, ':' :: after => (some (.label (Ident.ofPlain run)), after)
    | _ :: _, _ =>
      if c = '$' then
        match ident? rest with
        | some (.named name, after) => (some (.comdat name), after)
        | some (.numbered _, after) => (none, after.dropWhile nameChar)
        | none => (none, passOver rest)
      else ofFront (c :: rest)

private def isSpace (c : Char) : Bool :=
  c == ' ' || c == '\t' || c == '\n' || c == '\r' || c.toNat == 0

private def isLineEnd (c : Char) : Bool := c == '\n' || c == '\r'

private def scan : Nat → List Char → Array Token → List Token
  | 0, _, acc => acc.toList
  | fuel + 1, cs, acc =>
    match cs with
    | [] => acc.toList
    | c :: rest =>
      if isSpace c then scan fuel rest acc
      else if c == ';' then scan fuel (rest.dropWhile fun c => !isLineEnd c) acc
      else match first (c :: rest) with
        | (some t, rest) => scan fuel rest (acc.push t)
        | (none, rest) => scan fuel rest acc

def ofBytes (s : ByteString) : List Token :=
  let cs := s.bytes.map fun b => Char.ofNat b.toNat
  scan (cs.length + 1) cs #[]

end Token
end CallTargets.IR
