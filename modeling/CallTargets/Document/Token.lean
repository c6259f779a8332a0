import CallTargets.Document.ScalarText

/-!
# Tokens of a document

The tokens are taken from the text one after the other. Indentation opens and closes blocks. That
a token begins a key only shows at the colon behind it, so tokens wait in a queue as long as they
may become keys, and two more are always read ahead.
-/
namespace CallTargets.Document

inductive TokenKind where
  | streamStart
  | streamEnd
  | version (major minor : Nat)
  | shorthand (handle text : String)
  | documentStart
  | documentEnd
  | blockSequence
  | blockMapping
  | blockEnd
  | flowSequence
  | flowSequenceEnd
  | flowMapping
  | flowMappingEnd
  | blockEntry
  | flowEntry
  | key
  | value
  | reference (name : String)
  | anchor (name : String)
  | tag (handle suffix : String)
  | scalar (quoted : Bool) (text : String)
deriving DecidableEq, Repr, Inhabited

structure Token where
  kind : TokenKind
  start : Mark
  stop : Mark
deriving DecidableEq, Repr, Inhabited

/-- A token that may turn out to begin a key. -/
structure KeyCandidate where
  possible : Bool
  /-- Nothing but a key can begin here. -/
  required : Bool
  /-- How many tokens were before it. -/
  number : Nat
  mark : Mark
deriving Repr, Inhabited

/-- How far a document was taken apart. -/
structure Lexer where
  source : Source
  /-- How many brackets are open. -/
  flow : Nat
  indent : Int
  /-- The indentations around the current one. -/
  indents : List Int
  keyAllowed : Bool
  /-- The latest candidate inside every open bracket, the innermost first. -/
  candidates : List KeyCandidate
  queue : List Token
  /-- How many tokens have left the queue. -/
  taken : Nat
deriving Inhabited

abbrev Lex := StateT Lexer (Except ReadError)

namespace Lexer

def ofChars (cs : List Char) : Lexer :=
  let s := Source.ofChars cs
  ⟨s, 0, -1, [], true, [⟨false, false, 0, s.mark⟩], [⟨.streamStart, s.mark, s.mark⟩], 0⟩

def maxKeyLength : Nat := 1024

/-- A key has to be in one line and not too long. -/
def isStale (l : Lexer) (k : KeyCandidate) : Bool :=
  k.mark.line < l.source.mark.line || k.mark.index + maxKeyLength < l.source.mark.index

end Lexer

namespace Lex

private def noColon {α : Type} (l : Lexer) (k : KeyCandidate) : Lex α :=
  throw (.inToken k.mark l.source.mark .noColon)

private def fault {α : Type} (f : Fault) : Lex α := do
  let here := (← get).source.mark
  throw (.inToken here here f)

private def push (kind : TokenKind) (start stop : Mark) : Lex Unit :=
  modify fun l => { l with queue := l.queue ++ [⟨kind, start, stop⟩] }

private def pushBefore (number : Nat) (kind : TokenKind) (mark : Mark) : Lex Unit :=
  modify fun l =>
    let n := number - l.taken
    { l with queue := l.queue.take n ++ ⟨kind, mark, mark⟩ :: l.queue.drop n }

private def allowKey (b : Bool) : Lex Unit := modify fun l => { l with keyAllowed := b }

private def dropCandidate : Lex Unit := do
  let l ← get
  match l.candidates with
  | k :: rest =>
    if k.possible && k.required then noColon l k
    set { l with candidates := { k with possible := false } :: rest }
  | [] => return

/-- Makes the next token a candidate, if a key can begin here. -/
private def saveCandidate : Lex Unit := do
  let l ← get
  if l.keyAllowed then
    dropCandidate
    let here := l.source.mark
    let k : KeyCandidate :=
      ⟨true, l.flow == 0 && l.indent == here.column, l.taken + l.queue.length, here⟩
    modify fun l => { l with candidates := k :: l.candidates.tail }

/-- Whether a candidate can still become a key; one that cannot is given up. -/
private def stillPossible (k : KeyCandidate) : Lex Bool := do
  let l ← get
  if !k.possible then return false
  else if l.isStale k then
    if k.required then noColon l k
    let give (c : KeyCandidate) : KeyCandidate :=
      if c.number == k.number then { c with possible := false } else c
    set { l with candidates := l.candidates.map give }
    return false
  else return true

/-- Opens a block at a column that is deeper than the current one. -/
private def openBlock (column : Nat) (before : Option Nat) (kind : TokenKind) (mark : Mark) :
    Lex Unit := do
  let l ← get
  if l.flow = 0 ∧ l.indent < column then
    set { l with indents := l.indent :: l.indents, indent := column }
    match before with
    | some number => pushBefore number kind mark
    | none => push kind mark mark

private def closeBlocks (column : Int) (mark : Mark) : Lex Unit :=
  modify fun l => if l.flow = 0 then close l l.indents else l
where
  close (l : Lexer) : List Int → Lexer
    | [] => l
    | outer :: rest =>
      if column < l.indent then
        close { l with indent := outer, indents := rest, queue := l.queue ++ [⟨.blockEnd, mark, mark⟩] }
          rest
      else l

/-- Passes blanks, comments and line ends, `n` lines at most. A tab is no blank where a key may
begin. -/
private def skipGap : Nat → Lexer → Lexer
  | 0, l => l
  | n + 1, l =>
    let s := l.source
    let s := if s.mark.column = 0 ∧ s.at? (Char.ofNat 0xFEFF) then s.skip else s
    let s := s.skipWhile fun c => c == ' ' || ((l.flow != 0 || !l.keyAllowed) && c == '\t')
    let s := if s.at? '#' then Source.skipComments (s.rest.length + 1) s else s
    if s.head?.any isBreak then
      skipGap n { l with source := s.skipLine, keyAllowed := l.keyAllowed || l.flow == 0 }
    else { l with source := s }

private def indicator (width : Nat) (kind : TokenKind) : Lex Unit := do
  let start := (← get).source.mark
  modify fun l => { l with source := l.source.skipMany width }
  push kind start (← get).source.mark

private def fetchStreamEnd : Lex Unit := do
  modify fun l =>
    let m := l.source.mark
    if m.column = 0 then l
    else { l with source := { l.source with mark := ⟨m.index, m.line + 1, 0⟩ } }
  let here := (← get).source.mark
  closeBlocks (-1) here
  dropCandidate
  allowKey false
  push .streamEnd here here

private def fetchDocumentMark (kind : TokenKind) : Lex Unit := do
  closeBlocks (-1) (← get).source.mark
  dropCandidate
  allowKey false
  indicator 3 kind

private def fetchFlowStart (kind : TokenKind) : Lex Unit := do
  saveCandidate
  modify fun l => { l with
    flow := l.flow + 1
    candidates := ⟨false, false, l.taken + l.queue.length, l.source.mark⟩ :: l.candidates }
  allowKey true
  indicator 1 kind

private def fetchFlowEnd (kind : TokenKind) : Lex Unit := do
  dropCandidate
  modify fun l => if l.flow = 0 then l
    else { l with flow := l.flow - 1, candidates := l.candidates.tail }
  allowKey false
  indicator 1 kind

private def fetchFlowEntry : Lex Unit := do
  dropCandidate
  allowKey true
  indicator 1 .flowEntry

private def fetchBlockEntry : Lex Unit := do
  let l ← get
  if l.flow = 0 then
    if !l.keyAllowed then fault .entryPlace
    openBlock l.source.mark.column none .blockSequence l.source.mark
  dropCandidate
  allowKey true
  indicator 1 .blockEntry

private def fetchKey : Lex Unit := do
  let l ← get
  if l.flow = 0 then
    if !l.keyAllowed then fault .keyPlace
    openBlock l.source.mark.column none .blockMapping l.source.mark
  dropCandidate
  allowKey (l.flow == 0)
  indicator 1 .key

private def fetchValue : Lex Unit := do
  let l ← get
  let k := l.candidates.headD ⟨false, false, 0, l.source.mark⟩
  if ← stillPossible k then
    pushBefore k.number .key k.mark
    openBlock k.mark.column (some k.number) .blockMapping k.mark
    modify fun l => { l with candidates := { k with possible := false } :: l.candidates.tail }
    allowKey false
  else
    if l.flow = 0 then
      if !l.keyAllowed then fault .valuePlace
      openBlock l.source.mark.column none .blockMapping l.source.mark
    allowKey (l.flow == 0)
  indicator 1 .value

private def fetchName (kind : String → TokenKind) : Lex Unit := do
  saveCandidate
  allowKey false
  let start := (← get).source.mark
  let (name, s) := (← get).source.skip.span isNameChar
  let ends := s.gapAhead 0 ||
    s.head?.any fun c => ['?', ':', ',', ']', '%', '@'].contains c || c.toNat == 0x7D ||
      c.toNat == 0x60
  if name.isEmpty || !ends then throw (.inToken start s.mark .anchorName)
  modify fun l => { l with source := s }
  push (kind (String.ofList name)) start s.mark

/-! ### Tags -/

private def isTagChar (c : Char) : Bool :=
  isNameChar c || [';', '/', '?', ':', '@', '&', '=', '+', '$', '.', '!', '~', '*', '(', ')',
    '[', ']', ',', '%'].contains c || c.toNat == 0x27

/-- Decodes octets that are written as a percent sign and two digits. -/
private def unescapeTag : Nat → List Char → Option (List Char)
  | 0, _ => none
  | _ + 1, [] => some []
  | n + 1, '%' :: rest =>
    match rest with
    | a :: b :: rest =>
      match hexNumber? [a, b] with
      | some v => if v < 0x80 then (unescapeTag n rest).map (Char.ofNat v :: ·) else none
      | none => none
    | _ => none
  | n + 1, c :: rest => (unescapeTag n rest).map (c :: ·)

/-- Reads the text of a tag. Only between angle brackets it may hold commas and brackets. -/
private def tagText (start : Mark) (verbatim : Bool) (head : List Char) (s : Source) :
    Except ReadError (String × Source) :=
  let (cs, s) := s.span fun c =>
    isTagChar c && (verbatim || !(c == ',' || c == '[' || c == ']'))
  if cs.isEmpty && head.isEmpty then .error (.inToken start s.mark .tagText)
  else match unescapeTag (cs.length + 1) cs with
    | some cs => .ok (String.ofList (head.tail ++ cs), s)
    | none => .error (.inToken start s.mark .tagOctet)

/-- Reads the handle of a tag: an exclamation mark and perhaps a name with another one. -/
private def tagHandle (s : Source) : List Char × Source :=
  let (name, after) := s.skip.span isNameChar
  if after.at? '!' then ('!' :: name ++ ['!'], after.skip) else ('!' :: name, after)

private def scanTag (start : Mark) (s : Source) :
    Except ReadError (String × String × Source) := do
  if s.ahead? 1 = some '<' then
    let (suffix, s) ← tagText start true [] (s.skipMany 2)
    if !s.at? '>' then throw (.inToken start s.mark .tagBracket)
    return ("", suffix, s.skip)
  let (handle, s) := tagHandle s
  if 1 < handle.length ∧ handle.getLast? = some '!' then
    let (suffix, s) ← tagText start false [] s
    return (String.ofList handle, suffix, s)
  let (suffix, s) ← tagText start false handle s
  if suffix.isEmpty then return ("", String.ofList handle, s)
  return ("!", suffix, s)

private def fetchTag : Lex Unit := do
  saveCandidate
  allowKey false
  let start := (← get).source.mark
  let (handle, suffix, s) ← scanTag start (← get).source
  if !s.gapAhead 0 then throw (.inToken start s.mark .tagEnd)
  modify fun l => { l with source := s }
  push (.tag handle suffix) start s.mark

/-! ### Directives -/

private def maxVersionDigits : Nat := 9

private def versionNumber (start : Mark) (s : Source) : Except ReadError (Nat × Source) :=
  let (ds, s) := s.span Char.isDigit
  if maxVersionDigits < ds.length then .error (.inToken start s.mark .longVersion)
  else if ds.isEmpty then .error (.inToken start s.mark .versionNumber)
  else .ok (ds.foldl (fun n c => 10 * n + (c.toNat - '0'.toNat)) 0, s)

private def versionDirective (start : Mark) (s : Source) :
    Except ReadError (TokenKind × Source) := do
  let (major, s) ← versionNumber start s.skipBlanks
  if !s.at? '.' then throw (.inToken start s.mark .versionPoint)
  let (minor, s) ← versionNumber start s.skip
  return (.version major minor, s)

private def shorthandDirective (start : Mark) (s : Source) :
    Except ReadError (TokenKind × Source) := do
  let s := s.skipBlanks
  if !s.at? '!' then throw (.inToken start s.mark .tagMark)
  let (handle, s) := tagHandle s
  if handle ≠ ['!'] ∧ handle.getLast? ≠ some '!' then throw (.inToken start s.mark .tagMark)
  if !s.head?.any isBlank then throw (.inToken start s.mark .shorthandGap)
  let (text, s) ← tagText start true [] s.skipBlanks
  if !s.gapAhead 0 then throw (.inToken start s.mark .tagEnd)
  return (.shorthand (String.ofList handle) text, s)

private def fetchDirective : Lex Unit := do
  closeBlocks (-1) (← get).source.mark
  dropCandidate
  allowKey false
  let start := (← get).source.mark
  let (name, s) := (← get).source.skip.span isNameChar
  if name.isEmpty then throw (.inToken start s.mark .directiveName)
  if !s.gapAhead 0 then throw (.inToken start s.mark .directiveEnd)
  let (kind, s) ← match String.ofList name with
    | "YAML" => versionDirective start s
    | "TAG" => shorthandDirective start s
    | _ => throw (.inToken start s.mark .unknownDirective)
  let stop := s.mark
  let s := s.skipBlanks
  let s := if s.at? '#' then s.skipToLineEnd else s
  if !s.atLineEnd then throw (.inToken start s.mark .noLineEnd)
  modify fun l => { l with source := s.skipLine }
  push kind start stop

/-! ### Scalars -/

private def fetchBlockScalar (literal : Bool) : Lex Unit := do
  dropCandidate
  allowKey true
  let l ← get
  let (text, s) ← blockScalar literal l.indent l.source
  set { l with source := s }
  push (.scalar true text) l.source.mark s.mark

private def fetchQuoted (quote : Char) : Lex Unit := do
  saveCandidate
  allowKey false
  let l ← get
  let (text, s) ← quotedScalar quote l.source
  set { l with source := s }
  push (.scalar true text) l.source.mark s.mark

private def fetchPlain : Lex Unit := do
  saveCandidate
  allowKey false
  let l ← get
  let (plain, s) ← plainScalar (l.flow != 0) l.indent l.source
  set { l with source := s, keyAllowed := plain.broken }
  push (.scalar false plain.text) l.source.mark plain.stop

/-- Characters with which no plain scalar begins. -/
private def isIndicator (c : Char) : Bool :=
  ['-', '?', ':', ',', '[', ']', '#', '&', '*', '!', '|', '>', '"', '%', '@'].contains c ||
    [0x27, 0x60, 0x7B, 0x7D].contains c.toNat

/-- Whether a plain scalar can begin with a character, given what comes next. -/
private def startsPlain (flow : Bool) (c : Char) (next : Option Char) : Bool :=
  let gapNext := next.all fun d => isBlank d || isBreak d
  !(isBlank c || isBreak c || isIndicator c) || (c == '-' && !next.any isBlank) ||
    (!flow && (c == '?' || c == ':') && !gapNext)

/-- Reads the token that begins with a character. -/
private def fetchStarted (c : Char) : Lex Unit := do
  let l ← get
  let flow := l.flow != 0
  let gapNext := l.source.gapAhead 1
  if c = '[' then fetchFlowStart .flowSequence
  else if c.toNat = 0x7B then fetchFlowStart .flowMapping
  else if c = ']' then fetchFlowEnd .flowSequenceEnd
  else if c.toNat = 0x7D then fetchFlowEnd .flowMappingEnd
  else if c = ',' then fetchFlowEntry
  else if c = '-' ∧ gapNext then fetchBlockEntry
  else if c = '?' ∧ (flow || gapNext) then fetchKey
  else if c = ':' ∧ (flow || gapNext) then fetchValue
  else if c = '*' then fetchName .reference
  else if c = '&' then fetchName .anchor
  else if c = '!' then fetchTag
  else if c = '|' ∧ !flow then fetchBlockScalar true
  else if c = '>' ∧ !flow then fetchBlockScalar false
  else if c = '"' ∨ c.toNat = 0x27 then fetchQuoted c
  else if startsPlain flow c (l.source.ahead? 1) then fetchPlain
  else fault .tokenStart

/-- Reads the next token into the queue. Behind most tokens a comment may follow in the line. -/
private def fetch : Lex Unit := do
  let before := (← get).source.mark
  modify fun l => skipGap (l.source.rest.length + 1) l
  closeBlocks (← get).source.mark.column before
  let s := (← get).source
  match s.head? with
  | none => fetchStreamEnd
  | some c =>
    if s.mark.column = 0 ∧ c = '%' then fetchDirective
    else if s.atDocumentMark then
      fetchDocumentMark (if c = '-' then .documentStart else .documentEnd)
    else
      fetchStarted c
      modify fun l =>
        if l.queue.getLast?.any (·.kind == .blockEntry) then l
        else { l with source := l.source.skipLineComment }

private def lookahead : Nat := 2

/-- Fills the queue until its first token is settled, by `n` tokens at most. -/
private def fill : Nat → Lex Unit
  | 0 => return
  | n + 1 => do
    let l ← get
    let waits ← if l.queue.length ≤ lookahead then pure true
      else match l.candidates.find? fun k => k.possible && k.number == l.taken with
        | some k => stillPossible k
        | none => pure false
    if waits then
      fetch
      fill n

def peek : Lex Token := do
  fill ((← get).source.rest.length + 4)
  let l ← get
  return l.queue.headD ⟨.streamEnd, l.source.mark, l.source.mark⟩

def skip : Lex Unit :=
  modify fun l => { l with queue := l.queue.tail, taken := l.taken + 1 }

end Lex
end CallTargets.Document
