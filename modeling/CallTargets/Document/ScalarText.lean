import CallTargets.Document.Source
import CallTargets.Text.Quoted

/-!
# The text of scalars

A scalar is written plainly, between quotes, or as an indented block. Where it goes over several
lines, a single line end becomes a blank and of several all but the first are kept.
-/
namespace CallTargets.Document

/-! ### Gaps between words -/

/-- Blanks and line ends between two words of a scalar. -/
structure Gap where
  blanks : List Char
  first : List Char
  more : List Char
  /-- There is a line end, so that blanks do not count. -/
  broken : Bool
deriving Repr, Inhabited

namespace Gap

def empty : Gap := ⟨[], [], [], false⟩

def text (g : Gap) : List Char :=
  if g.broken then
    if g.first.head? = some '\n' then if g.more.isEmpty then [' '] else g.more
    else g.first ++ g.more
  else g.blanks

/-- Passes a gap, `n` characters at most. In a line after the first, no tab may stand before the
column `least`. -/
def scan (start : Mark) (least : Int) : Nat → Gap → Source → Except ReadError (Gap × Source)
  | 0, g, s => .ok (g, s)
  | n + 1, g, s =>
    match s.head? with
    | some c =>
      if isBlank c then
        if g.broken then
          if c = '\t' ∧ (s.mark.column : Int) < least then
            .error (.inToken start s.mark .tabIndent)
          else scan start least n g s.skip
        else scan start least n { g with blanks := g.blanks ++ [c] } s.skip
      else if isBreak c then
        let (kept, s) := s.lineBreak
        if g.broken then scan start least n { g with more := g.more ++ kept } s
        else scan start least n { g with blanks := [], first := kept, broken := true } s
      else .ok (g, s)
    | none => .ok (g, s)

end Gap

/-! ### Plain scalars -/

/-- A plain scalar that was read, and whether lines were left behind it. -/
structure PlainText where
  text : String
  stop : Mark
  broken : Bool
deriving Inhabited

/-- Whether a plain scalar ends at a character, given what comes next. Between brackets, it also
ends at marks that have a meaning there. -/
private def endsWord (flow : Bool) (c : Char) (gapNext : Bool) : Bool :=
  (c == ':' && gapNext) ||
    (flow && (c == ',' || c == '?' || c == '[' || c == ']' || c.toNat == 0x7B || c.toNat == 0x7D))

/-- Passes a word of a plain scalar, `n` characters at most. -/
private def plainWord (flow : Bool) : Nat → Source → List Char × Source
  | 0, s => ([], s)
  | n + 1, s =>
    match s.head? with
    | some c =>
      if isBlank c || isBreak c || endsWord flow c (s.gapAhead 1) then ([], s)
      else
        let (cs, s) := plainWord flow n s.skip
        (c :: cs, s)
    | none => ([], s)

/-- Reads words and gaps, `n` of them at most. -/
private def plainLoop (start : Mark) (flow : Bool) (least : Int) :
    Nat → List Char → Gap → Mark → Source → Except ReadError (PlainText × Source)
  | 0, text, g, stop, s => .ok (⟨String.ofList text, stop, g.broken⟩, s)
  | n + 1, text, g, stop, s =>
    if s.atDocumentMark || s.at? '#' then .ok (⟨String.ofList text, stop, g.broken⟩, s)
    else
      let (word, s) := plainWord flow s.rest.length s
      let (text, g, stop) := if word.isEmpty then (text, g, stop)
        else (text ++ g.text ++ word, Gap.empty, s.mark)
      if s.head?.any fun c => isBlank c || isBreak c then
        match g.scan start least (s.rest.length + 1) s with
        | .error e => .error e
        | .ok (g, s) =>
          if !flow && (s.mark.column : Int) < least then
            .ok (⟨String.ofList text, stop, g.broken⟩, s)
          else plainLoop start flow least n text g stop s
      else .ok (⟨String.ofList text, stop, g.broken⟩, s)

/-- Reads a plain scalar inside a block that is indented by `indent`. -/
def plainScalar (flow : Bool) (indent : Int) (s : Source) : Except ReadError (PlainText × Source) :=
  plainLoop s.mark flow (indent + 1) (s.rest.length + 1) [] .empty s.mark s

/-! ### Quoted scalars -/

private def apostropheMark : Char := Char.ofNat 0x27

/-- The character that a single letter after a backslash stands for. -/
def escapedChar? : Char → Option Char
  | '0' => some (Char.ofNat 0)
  | 'a' => some (Char.ofNat 7)
  | 'b' => some (Char.ofNat 8)
  | 't' => some '\t'
  | 'n' => some '\n'
  | 'v' => some (Char.ofNat 11)
  | 'f' => some (Char.ofNat 12)
  | 'r' => some '\r'
  | 'e' => some (Char.ofNat 27)
  | 'N' => some (Char.ofNat 0x85)
  | '_' => some (Char.ofNat 0xA0)
  | 'L' => some (Char.ofNat 0x2028)
  | 'P' => some (Char.ofNat 0x2029)
  | c => if c = ' ' ∨ c = '\t' ∨ c = '"' ∨ c = '\\' ∨ c = apostropheMark then some c else none

/-- How many hexadecimal digits follow a letter after a backslash. -/
def escapeWidth? : Char → Option Nat
  | 'x' => some 2
  | 'u' => some 4
  | 'U' => some 8
  | _ => none

def hexNumber? (cs : List Char) : Option Nat :=
  cs.foldl (fun n c => n.bind fun n => (Text.hexValue? c).map (16 * n + ·)) (some 0)

private def escaped (start : Mark) (s : Source) : Except ReadError (Char × Source) :=
  match s.ahead? 1 with
  | none => .error (.inToken start s.mark .unknownEscape)
  | some c =>
    match escapeWidth? c with
    | some width =>
      let after := s.skipMany 2
      let digits := after.rest.take width
      match hexNumber? digits with
      | some n =>
        if digits.length < width then .error (.inToken start after.mark .escapeDigits)
        else if n.isValidChar then .ok (Char.ofNat n, after.skipMany width)
        else .error (.inToken start after.mark .escapeCode)
      | none => .error (.inToken start after.mark .escapeDigits)
    | none =>
      match escapedChar? c with
      | some d => .ok (d, s.skipMany 2)
      | none => .error (.inToken start s.mark .unknownEscape)

/-- Reads characters up to a gap or to the closing quote, `n` at most. The flag says that a line
end was escaped. -/
private def quotedWord (start : Mark) (quote : Char) :
    Nat → List Char → Source → Except ReadError (List Char × Bool × Source)
  | 0, done, s => .ok (done, false, s)
  | n + 1, done, s =>
    match s.head? with
    | none => .ok (done, false, s)
    | some c =>
      if isBlank c || isBreak c then .ok (done, false, s)
      else if c = quote then
        if quote = apostropheMark ∧ s.ahead? 1 = some quote then
          quotedWord start quote n (c :: done) (s.skipMany 2)
        else .ok (done, false, s)
      else if quote = '"' ∧ c = '\\' then
        if (s.ahead? 1).any isBreak then .ok (done, true, s.skip.skipLine)
        else match escaped start s with
          | .error e => .error e
          | .ok (d, s) => quotedWord start quote n (d :: done) s
      else quotedWord start quote n (c :: done) s.skip

/-- Reads words and gaps up to the closing quote, `n` of them at most. -/
private def quotedLoop (start : Mark) (quote : Char) :
    Nat → List Char → Source → Except ReadError (String × Source)
  | 0, _, s => .error (.inToken start s.mark .openQuote)
  | n + 1, text, s =>
    if s.atDocumentMark then .error (.inToken start s.mark .documentMark)
    else if s.rest.isEmpty then .error (.inToken start s.mark .openQuote)
    else match quotedWord start quote s.rest.length [] s with
      | .error e => .error e
      | .ok (word, broken, s) =>
        let text := text ++ word.reverse
        if s.at? quote then .ok (String.ofList text, s.skip)
        else match Gap.scan start 0 (s.rest.length + 1) { Gap.empty with broken := broken } s with
          | .error e => .error e
          | .ok (g, s) => quotedLoop start quote n (text ++ g.text) s

def quotedScalar (quote : Char) (s : Source) : Except ReadError (String × Source) :=
  quotedLoop s.mark quote (s.rest.length + 1) [] s.skip

/-! ### Block scalars -/

/-- What becomes of the line ends behind a block. -/
inductive Chomping where
  | strip
  | clip
  | keep
deriving DecidableEq, Repr, Inhabited

private def chomping? (s : Source) : Option Chomping :=
  if s.at? '+' then some .keep else if s.at? '-' then some .strip else none

/-- Reads the digit that says how far a block is indented; it is not zero. -/
private def indentDigit (start : Mark) (s : Source) : Except ReadError (Nat × Source) :=
  match s.head? with
  | some c =>
    if c.isDigit then
      if c = '0' then .error (.inToken start s.mark .zeroIndent)
      else .ok (c.toNat - '0'.toNat, s.skip)
    else .ok (0, s)
  | none => .ok (0, s)

/-- Reads the marks in the first line of a block, in either order. -/
private def blockHeader (start : Mark) (s : Source) :
    Except ReadError (Chomping × Nat × Source) :=
  match chomping? s with
  | some chomping => (indentDigit start s.skip).map fun (n, s) => (chomping, n, s)
  | none => (indentDigit start s).map fun (n, s) =>
    match n, chomping? s with
    | _ + 1, some chomping => (chomping, n, s.skip)
    | _, _ => (.clip, n, s)

/-- Passes empty lines and the indentation of the next line, `n` lines at most. Returns the line
ends and the deepest indentation. An indentation of zero is not known yet. -/
private def blockBreaks (start : Mark) (indent : Nat) :
    Nat → Nat → List Char → Source → Except ReadError (Nat × List Char × Source)
  | 0, deepest, breaks, s => .ok (deepest, breaks, s)
  | n + 1, deepest, breaks, s =>
    let width := if indent = 0 then s.rest.length else indent - s.mark.column
    let s := (Source.spanUpTo (· == ' ') width s).2
    let deepest := max deepest s.mark.column
    if (indent = 0 ∨ s.mark.column < indent) ∧ s.at? '\t' then
      .error (.inToken start s.mark .blockTab)
    else if s.head?.any isBreak then
      let (kept, s) := s.lineBreak
      blockBreaks start indent n deepest (breaks ++ kept) s
    else .ok (deepest, breaks, s)

/-- The lines of a block that were read so far. -/
private structure BlockText where
  text : List Char
  /-- The end of the last line. -/
  last : List Char
  /-- The line ends after it. -/
  breaks : List Char
  /-- The last line began with a blank. -/
  blank : Bool

/-- Reads the lines of a block, `n` at most. -/
private def blockLines (start : Mark) (literal : Bool) (indent : Nat) :
    Nat → BlockText → Source → Except ReadError (BlockText × Source)
  | 0, b, s => .ok (b, s)
  | n + 1, b, s =>
    if s.mark.column ≠ indent ∨ s.rest.isEmpty then .ok (b, s)
    else
      let blank := s.head?.any isBlank
      let fold := !literal && !b.blank && !blank && b.last.head? == some '\n'
      let joint := if fold then (if b.breaks.isEmpty then [' '] else []) else b.last
      let (line, s) := s.span fun c => !isBreak c
      let (kept, s) := s.lineBreak
      match blockBreaks start indent (s.rest.length + 1) 0 [] s with
      | .error e => .error e
      | .ok (_, breaks, s) =>
        blockLines start literal indent n ⟨b.text ++ joint ++ b.breaks ++ line, kept, breaks, blank⟩ s

/-- Reads a block scalar; lines of a literal one are not joined. -/
def blockScalar (literal : Bool) (indent : Int) (s : Source) : Except ReadError (String × Source) := do
  let start := s.mark
  let (chomping, increment, s) ← blockHeader start s.skip
  let s := s.skipBlanks
  let s := if s.at? '#' then s.skipToLineEnd else s
  if !s.atLineEnd then throw (.inToken start s.mark .noLineEnd)
  let s := s.skipLine
  let given := if increment = 0 then 0 else (max indent 0).toNat + increment
  let (deepest, breaks, s) ← blockBreaks start given (s.rest.length + 1) 0 [] s
  let width := if given = 0 then max (max deepest (indent + 1).toNat) 1 else given
  let (b, s) ← blockLines start literal width (s.rest.length + 1) ⟨[], [], breaks, false⟩ s
  let tail := match chomping with
    | .strip => []
    | .clip => b.last
    | .keep => b.last ++ b.breaks
  return (String.ofList (b.text ++ tail), s)

end CallTargets.Document
