import CallTargets.Document.Encoding
import CallTargets.Document.Node
import CallTargets.Document.Token

/-!
# Reading documents

Builds the tree of the first document of a text from its tokens. What follows the document is not
looked at, apart from the tokens that are read ahead.
-/
namespace CallTargets.Document

/-- What reading goes by: tokens, the parts that have names, and what handles of tags stand for. A
part that is still being read has no tree yet. -/
structure Reading where
  lexer : Lexer
  anchors : List (String × Option Node)
  shorthands : List (String × String)
deriving Inhabited

abbrev Read := StateT Reading (Except ReadError)

def commonTagStart : String := "tag:yaml.org,2002:"

def commonShorthands : List (String × String) := [("!", "!"), ("!!", commonTagStart)]

namespace Read

private def lex {α : Type} (x : Lex α) : Read α := do
  let r ← get
  let (a, lexer) ← x.run r.lexer
  set { r with lexer := lexer }
  return a

def peek : Read Token := lex Lex.peek

def skip : Read Unit := lex Lex.skip

private def fault {α : Type} (start here : Mark) (f : Fault) : Read α :=
  throw (.betweenTokens start here f)

/-- A part in which nothing was written, where a token begins or ends. -/
private def missing (m : Mark) : Node := .missing (m.line + 1)

private def shortTag (tag : String) : String :=
  if tag.startsWith commonTagStart then "!!" ++ (tag.drop commonTagStart.length).toString else tag

/-- What stands before a part: a name and a tag, in either order. -/
structure Properties where
  start : Mark
  anchor : Option String
  tag : Option String
deriving Inhabited

/-- The tag that a handle and the rest of a tag stand for. A lone exclamation mark is no tag. -/
private def resolveTag (start here : Mark) (handle suffix : String) : Read (Option String) := do
  if handle.isEmpty then return if suffix = "!" then none else some (shortTag suffix)
  match (← get).shorthands.find? fun s => s.1 == handle with
  | some (_, text) => return some (shortTag (text ++ suffix))
  | none => fault start here .unknownHandle

private def properties : Read Properties := do
  let first ← peek
  match first.kind with
  | .anchor name =>
    skip
    let second ← peek
    match second.kind with
    | .tag handle suffix =>
      skip
      let _ ← peek
      return ⟨first.start, some name, ← resolveTag first.start second.start handle suffix⟩
    | _ => return ⟨first.start, some name, none⟩
  | .tag handle suffix =>
    skip
    let second ← peek
    match second.kind with
    | .anchor name =>
      skip
      let _ ← peek
      return ⟨first.start, some name, ← resolveTag first.start first.start handle suffix⟩
    | _ => return ⟨first.start, none, ← resolveTag first.start first.start handle suffix⟩
  | _ => return ⟨first.start, none, none⟩

private def beginNamed (anchor : Option String) : Read Unit :=
  match anchor with
  | some name => modify fun r => { r with anchors := (name, none) :: r.anchors }
  | none => return

/-- Notes the tree of a named part, unless its name was given to another part in between. -/
private def endNamed (anchor : Option String) (n : Node) : Read Unit :=
  match anchor with
  | some name => modify fun r =>
    match r.anchors.find? fun a => a.1 == name with
    | some (_, none) => { r with anchors := (name, some n) :: r.anchors }
    | _ => r
  | none => return

private def reference (t : Token) (name : String) : Read Node := do
  skip
  match (← get).anchors.find? fun a => a.1 == name with
  | some (_, target) => return .reference (t.start.line + 1) name target
  | none => throw ⟨none, .unknownAnchor name⟩

mutual

/-- Reads a part. Blocks are read only outside of brackets, and entries without indentation of
their own only inside a mapping. -/
private def node (block indentless : Bool) : Nat → Read Node
  | 0 => do
    let t ← peek
    fault t.start t.start .noContent
  | n + 1 => do
    let t ← peek
    match t.kind with
    | .reference name => reference t name
    | _ =>
      let p ← properties
      let t ← peek
      let line := p.start.line + 1
      beginNamed p.anchor
      let read ← match t.kind with
        | .blockEntry =>
          if indentless then
            pure (some (.sequence line (p.tag.getD sequenceTag) (← plainEntries n)))
          else pure none
        | .scalar quoted text =>
          skip
          pure (some (.scalar ⟨line, p.tag, quoted, text⟩))
        | .flowSequence =>
          skip
          pure (some (.sequence line (p.tag.getD sequenceTag) (← flowItems t.start true n)))
        | .flowMapping =>
          skip
          pure (some (.mapping line (p.tag.getD mappingTag) (← flowEntries t.start true n)))
        | .blockSequence =>
          if block then
            skip
            pure (some (.sequence line (p.tag.getD sequenceTag) (← blockItems t.start n)))
          else pure none
        | .blockMapping =>
          if block then
            skip
            pure (some (.mapping line (p.tag.getD mappingTag) (← blockEntries t.start n)))
          else pure none
        | _ => pure none
      let read ← match read with
        | some r => pure r
        | none =>
          if p.anchor.isSome || p.tag.isSome then
            pure (.scalar ⟨line, p.tag, false, ""⟩)
          else fault p.start t.start .noContent
      endNamed p.anchor read
      return read

private def blockItems (start : Mark) : Nat → Read (List Node)
  | 0 => return []
  | n + 1 => do
    let t ← peek
    match t.kind with
    | .blockEntry =>
      skip
      let next ← peek
      let item ← if next.kind == .blockEntry || next.kind == .blockEnd then
          pure (missing t.stop)
        else node true false n
      return item :: (← blockItems start n)
    | .blockEnd =>
      skip
      return []
    | _ => fault start t.start .noDash

/-- Reads the items of a sequence that stands in the column of the key before it. -/
private def plainEntries : Nat → Read (List Node)
  | 0 => return []
  | n + 1 => do
    let t ← peek
    if t.kind == .blockEntry then
      skip
      let next ← peek
      let item ← if next.kind == .blockEntry || next.kind == .key || next.kind == .value ||
          next.kind == .blockEnd then pure (missing t.stop)
        else node true false n
      return item :: (← plainEntries n)
    else return []

private def blockEntries (start : Mark) : Nat → Read (List (Node × Node))
  | 0 => return []
  | n + 1 => do
    let t ← peek
    match t.kind with
    | .key =>
      skip
      let next ← peek
      let key ← if next.kind == .key || next.kind == .value || next.kind == .blockEnd then
          pure (missing t.stop)
        else node true true n
      let value ← blockValue n
      return (key, value) :: (← blockEntries start n)
    | .blockEnd =>
      skip
      return []
    | _ => fault start t.start .noKey

private def blockValue : Nat → Read Node
  | 0 => return missing (← peek).start
  | n + 1 => do
    let t ← peek
    if t.kind == .value then
      skip
      let next ← peek
      if next.kind == .key || next.kind == .value || next.kind == .blockEnd then
        return missing t.stop
      else node true true n
    else return missing t.start

private def flowItems (start : Mark) (first : Bool) : Nat → Read (List Node)
  | 0 => return []
  | n + 1 => do
    let t ← peek
    if t.kind == .flowSequenceEnd then
      skip
      return []
    else
      if !first then
        if t.kind == .flowEntry then skip else fault start t.start .noComma
      let t ← peek
      if t.kind == .key then
        skip
        let pair ← flowPair n
        return .mapping (t.start.line + 1) mappingTag [pair] :: (← flowItems start false n)
      else if t.kind == .flowSequenceEnd then
        skip
        return []
      else
        let item ← node false false n
        return item :: (← flowItems start false n)

/-- Reads a single entry of a mapping that is an item of a sequence between brackets. -/
private def flowPair : Nat → Read (Node × Node)
  | 0 => return (.missing 0, .missing 0)
  | n + 1 => do
    let t ← peek
    let key ← if t.kind == .value || t.kind == .flowEntry || t.kind == .flowSequenceEnd then do
        skip
        pure (missing t.stop)
      else node false false n
    let t ← peek
    if t.kind == .value then
      skip
      let t ← peek
      if t.kind == .flowEntry || t.kind == .flowSequenceEnd then return (key, missing t.start)
      else return (key, ← node false false n)
    else return (key, missing t.start)

private def flowEntries (start : Mark) (first : Bool) : Nat → Read (List (Node × Node))
  | 0 => return []
  | n + 1 => do
    let t ← peek
    if t.kind == .flowMappingEnd then
      skip
      return []
    else
      if !first then
        if t.kind == .flowEntry then skip else fault start t.start .noFlowComma
      let t ← peek
      if t.kind == .key then
        skip
        let next ← peek
        let key ← if next.kind == .value || next.kind == .flowEntry ||
            next.kind == .flowMappingEnd then pure (missing next.start)
          else node false false n
        let value ← flowValue n
        return (key, value) :: (← flowEntries start false n)
      else if t.kind == .flowMappingEnd then
        skip
        return []
      else
        let key ← node false false n
        let value := missing (← peek).start
        return (key, value) :: (← flowEntries start false n)

private def flowValue : Nat → Read Node
  | 0 => return missing (← peek).start
  | n + 1 => do
    let t ← peek
    if t.kind == .value then
      skip
      let next ← peek
      if next.kind == .flowEntry || next.kind == .flowMappingEnd then return missing next.start
      else node false false n
    else return missing t.start

end

/-- Reads directives, `n` at most; a version may be given once. -/
private def directives (versionGiven : Bool) : Nat → Read Unit
  | 0 => return
  | n + 1 => do
    let t ← peek
    match t.kind with
    | .version major minor =>
      if versionGiven then fault t.start t.start .repeatedVersion
      if major ≠ 1 ∨ minor ≠ 1 then fault t.start t.start .otherVersion
      skip
      directives true n
    | .shorthand handle text =>
      let known := (← get).shorthands
      if known.any fun s => s.1 == handle then fault t.start t.start .repeatedShorthand
      modify fun r => { r with shorthands := (handle, text) :: known }
      skip
      directives versionGiven n
    | _ => return

/-- Reads the first document, if there is one. -/
private def document (fuel : Nat) : Read (Option Node) := do
  let _ ← peek
  skip
  let t ← peek
  let explicit : Bool := match t.kind with
    | .version _ _ => true
    | .shorthand _ _ => true
    | .documentStart => true
    | _ => false
  if t.kind == .streamEnd then return none
  if explicit then
    directives false fuel
    let t ← peek
    if t.kind != .documentStart then fault t.start t.start .documentStart
    skip
  modify fun r => { r with shorthands := r.shorthands ++ commonShorthands }
  let t ← peek
  let empty : Bool := match t.kind with
    | .version _ _ => true
    | .shorthand _ _ => true
    | .documentStart => explicit
    | .documentEnd => explicit
    | .streamEnd => explicit
    | _ => false
  let root ← if empty then pure (missing t.start) else node true false fuel
  let _ ← peek
  return some root

end Read

/-- Reads the first document of bytes; a text without content has none. -/
def read (bytes : List UInt8) : Except ReadError (Option Node) :=
  match characters bytes with
  | .error f => .error ⟨none, f⟩
  | .ok cs =>
    let start : Reading := ⟨.ofChars cs, [], []⟩
    ((Read.document (8 * (cs.length + 8))).run start).map Prod.fst

end CallTargets.Document
