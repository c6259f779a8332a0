import CallTargets.Document.ReadError

/-!
# The text of a document under a cursor

What is left to read, and where in the document it begins. Besides the usual line ends, three
further characters end a line.
-/
namespace CallTargets.Document

def isBlank (c : Char) : Bool := c == ' ' || c == '\t'

def isBreak (c : Char) : Bool :=
  c == '\n' || c == '\r' || c.toNat == 0x85 || c.toNat == 0x2028 || c.toNat == 0x2029

def isNameChar (c : Char) : Bool := c.isAlphanum || c == '_' || c == '-'

structure Source where
  rest : List Char
  mark : Mark
  /-- The line ends since the last character that is not blank. -/
  breaks : Nat
deriving Repr, Inhabited

namespace Source

def ofChars (cs : List Char) : Source := ⟨cs, ⟨0, 0, 0⟩, 0⟩

/-- The character a number of places ahead; there is none at the end. -/
def ahead? (s : Source) (n : Nat) : Option Char := (s.rest.drop n).head?

def head? (s : Source) : Option Char := s.rest.head?

def at? (s : Source) (c : Char) : Bool := s.head? == some c

/-- Whether a place ahead is blank, a line end or the end of the text. -/
def gapAhead (s : Source) (n : Nat) : Bool :=
  match s.ahead? n with
  | some c => isBlank c || isBreak c
  | none => true

/-- Whether the next character ends a line, or there is none. -/
def atLineEnd (s : Source) : Bool :=
  match s.head? with
  | some c => isBreak c
  | none => true

def skip (s : Source) : Source :=
  match s.rest with
  | [] => s
  | c :: rest =>
    ⟨rest, { s.mark with index := s.mark.index + 1, column := s.mark.column + 1 },
      if isBlank c then s.breaks else 0⟩

def skipMany (s : Source) : Nat → Source
  | 0 => s
  | n + 1 => s.skip.skipMany n

/-- Passes a line end. It is kept as a line feed unless it is one of the two separators. -/
def lineBreak (s : Source) : List Char × Source :=
  let pass (width : Nat) (kept : Char) : List Char × Source :=
    ([kept], ⟨s.rest.drop width, ⟨s.mark.index + width, s.mark.line + 1, 0⟩, s.breaks + 1⟩)
  match s.rest with
  | '\r' :: '\n' :: _ => pass 2 '\n'
  | c :: _ =>
    if c.toNat = 0x2028 ∨ c.toNat = 0x2029 then pass 1 c
    else if isBreak c then pass 1 '\n'
    else ([], s)
  | [] => ([], s)

def skipLine (s : Source) : Source := s.lineBreak.2

/-- Passes characters as long as they fulfil a condition, `n` of them at most. -/
def spanUpTo (p : Char → Bool) : Nat → Source → List Char × Source
  | 0, s => ([], s)
  | n + 1, s =>
    match s.head? with
    | some c =>
      if p c then
        let (cs, s) := spanUpTo p n s.skip
        (c :: cs, s)
      else ([], s)
    | none => ([], s)

/-- Passes characters as long as they fulfil a condition. -/
def span (p : Char → Bool) (s : Source) : List Char × Source :=
  spanUpTo p s.rest.length s

def skipWhile (p : Char → Bool) (s : Source) : Source := (s.span p).2

def skipBlanks (s : Source) : Source := s.skipWhile isBlank

def skipToLineEnd (s : Source) : Source := s.skipWhile fun c => !isBreak c

/-- Whether the text is at a line that separates documents. -/
def atDocumentMark (s : Source) : Bool :=
  s.mark.column == 0 && s.gapAhead 3 &&
    (s.rest.take 3 == ['-', '-', '-'] || s.rest.take 3 == ['.', '.', '.'])

/-- Passes a comment behind blanks in the same line, if there is one. -/
def skipLineComment (s : Source) : Source :=
  let after := s.skipBlanks
  if s.breaks = 0 ∧ after.at? '#' then after.skipToLineEnd else s

/-- Passes line ends and blanks as far as a further comment, `n` of them at most. -/
def nextComment? : Nat → Source → Option Source
  | 0, _ => none
  | n + 1, s =>
    match s.head? with
    | some c =>
      if c == '#' then some s
      else if isBlank c then nextComment? n s.skip
      else if isBreak c then nextComment? n s.skipLine
      else none
    | none => none

/-- Passes a comment and those that follow with nothing between, `n` of them at most, and stops at
the end of the last line. -/
def skipComments : Nat → Source → Source
  | 0, s => s
  | n + 1, s =>
    let s := s.skipToLineEnd
    match nextComment? (s.rest.length + 1) s with
    | some next => skipComments n next
    | none => s

end Source
end CallTargets.Document
