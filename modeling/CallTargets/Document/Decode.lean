import CallTargets.Document.Node
import CallTargets.Text.Literal
import CallTargets.Text.Utf8

/-!
# Reading typed values out of a document

A decoder takes a value out of a node and lists what does not fit. A null sets nothing, which is
not a problem. Repeated keys of a mapping are problems, unknown ones are not. Some problems end
the decoding, and then only the first of these is reported.
-/
namespace CallTargets.Document

/-- What is wrong with a part of a document. -/
inductive Problem where
  | mismatch (line : Nat) (found : String) (value : Option String) (wanted : String)
  | repeatedKey (line : Nat) (key : String) (first : Nat)
  /-- A scalar is spelled as something else than its tag says. -/
  | wrongTag (found text tag : String)
  /-- A named part contains a reference to itself. -/
  | endless (name : String)
  /-- What is merged into a mapping is no mapping. -/
  | noMapping
deriving DecidableEq, Repr, Inhabited

/-- A value between backquotes; of a long one only the beginning is shown. -/
private def excerpt (s : String) : String :=
  let bytes := s.toUTF8.toList
  let shown := if 10 < bytes.length then
      Text.ofUtf8 (bytes.take 7) ++ "..."
    else s
  "`" ++ shown ++ "`"

namespace Problem

def message : Problem → String
  | .mismatch line found value wanted =>
    "line " ++ toString line ++ ": cannot unmarshal " ++ found ++
      (match value with
        | some s => " " ++ excerpt s
        | none => "") ++ " into " ++ wanted
  | .repeatedKey line key first =>
    "line " ++ toString line ++ ": mapping key " ++ Text.literal key ++
      " already defined at line " ++ toString first
  | .wrongTag found text tag => "cannot decode " ++ found ++ " `" ++ text ++ "` as a " ++ tag
  | .endless name => "anchor '" ++ name ++ "' value contains itself"
  | .noMapping => "map merge requires map or sequence of maps as the value"

def isFatal : Problem → Bool
  | .mismatch _ _ _ _ => false
  | .repeatedKey _ _ _ => false
  | _ => true

def report (problems : List Problem) : String :=
  match problems.find? isFatal with
  | some p => "yaml: " ++ p.message
  | none => "yaml: unmarshal errors:" ++ String.join (problems.map fun p => "\n  " ++ p.message)

end Problem

/-- The value taken out of a node, if there is one, and the problems. -/
structure Decoded (α : Type) where
  value : Option α
  problems : List Problem
deriving Inhabited

abbrev Decoder (α : Type) := Node → Decoded α

namespace Decoded

variable {α β : Type}

def ofValue (a : α) : Decoded α := ⟨some a, []⟩

def nothing : Decoded α := ⟨none, []⟩

def map (f : α → β) (d : Decoded α) : Decoded β := ⟨d.value.map f, d.problems⟩

end Decoded

/-- The node is not what was wanted. Only lists and mappings with their usual tags are named
without a value. -/
def mismatch {α : Type} (wanted : String) (line : Nat) (tag text : String) : Decoded α :=
  let value := if tag = sequenceTag ∨ tag = mappingTag then none else some text
  ⟨none, [.mismatch line tag value wanted]⟩

/-- A decoder by the kinds of nodes; a reference is decoded as what it stands for. -/
def decodeNode {α : Type} (scalar : Word → Decoded α)
    (sequence : Nat → String → List Node → Decoded α)
    (mapping : Nat → String → List (Node × Node) → Decoded α) : Decoder α
  | .scalar w => scalar w
  | .sequence line tag items => sequence line tag items
  | .mapping line tag entries => mapping line tag entries
  | .reference _ _ (some target) => decodeNode scalar sequence mapping target
  | .reference _ name none => ⟨none, [.endless name]⟩

/-- The keys that occur again later in a mapping. Keys that are no scalars are told apart only by
their kind and name. -/
def repeatedKeys : List (Node × Node) → List Problem
  | [] => []
  | (key, _) :: rest =>
    (rest.filterMap fun e =>
      if e.1.sameKey key then some (.repeatedKey e.1.line key.keyText key.line) else none) ++
      repeatedKeys rest

/-- A mapping with repeated keys is not decoded. -/
private def unlessRepeated {α : Type} (entries : List (Node × Node)) (d : Decoded α) : Decoded α :=
  match repeatedKeys entries with
  | [] => d
  | problems => ⟨none, problems⟩

/-- Decodes a scalar that is not null, and something else for null; `f` gives nothing where the
value does not fit. -/
private def decodeWord {α : Type} (wanted : String) (null : Decoded α)
    (f : String → Scalar → Option α) (w : Word) : Decoded α :=
  match w.scalar? with
  | none => ⟨none, [.wrongTag w.spelled.tag w.text w.tag]⟩
  | some .null => null
  | some v =>
    match f w.text v with
    | some a => .ofValue a
    | none => mismatch wanted w.line w.tag w.text

/-- Decodes a scalar; `f` gives nothing where the value does not fit. -/
def decodeScalar {α : Type} (wanted : String) (f : String → Scalar → Option α) : Decoder α :=
  decodeNode (decodeWord wanted .nothing f)
    (fun line tag _ => mismatch wanted line tag "")
    (fun line tag entries => unlessRepeated entries (mismatch wanted line tag ""))

def decodeText : Decoder String :=
  decodeScalar "string" fun s _ => some s

/-- The whole part of a floating-point number, if it is not above the signed 64-bit range; one
below the range becomes its least number. -/
private def wholePart? (x : Float) : Option Int :=
  if x ≤ 9223372036854775808.0 then
    if x < -9223372036854775808.0 ∨ 9223372036854775808.0 ≤ x then
      some Int64.minValue.toInt
    else some x.toInt64.toInt
  else none

/-- Numbers that fit the signed 64-bit range; fractions are cut off. -/
def decodeInt : Decoder Int :=
  decodeScalar "int" fun _ v =>
    match v with
    | .int n => if n ≤ Int64.maxValue.toInt then some n else none
    | .float x => wholePart? x
    | _ => none

/-- Truth values, also some words that are texts elsewhere. -/
def decodeBool : Decoder Bool :=
  decodeScalar "bool" fun _ v =>
    match v with
    | .bool b => some b
    | .text s =>
      if ["y", "Y", "yes", "Yes", "YES", "on", "On", "ON"].contains s then some true
      else if ["n", "N", "no", "No", "NO", "off", "Off", "OFF"].contains s then some false
      else none
    | _ => none

def decodeFloat : Decoder Float :=
  decodeScalar "float64" fun _ v =>
    match v with
    | .int n => some (Float.ofInt n)
    | .float x => some x
    | _ => none

/-- A sequence of items; items without a value are left out. -/
def decodeList {α : Type} (wanted : String) (item : Decoder α) : Decoder (List α) :=
  decodeNode (decodeWord wanted (.ofValue []) fun _ _ => none)
    (fun _ _ items =>
      let ds := items.map item
      ⟨some (ds.filterMap Decoded.value), ds.flatMap Decoded.problems⟩)
    (fun line tag entries => unlessRepeated entries (mismatch wanted line tag ""))

def maxMergeDepth : Nat := 100

/-- The entries of a mapping in the order in which they count: its own, then those that are merged
into it, `n` levels deep at most. -/
def allEntries : Nat → List (Node × Node) → List (Decoded (String × Node))
  | 0, _ => []
  | n + 1, entries =>
    match repeatedKeys entries with
    | [] =>
      (entries.filter fun e => !e.1.isMerge).map (fun (k, v) => (decodeText k).map (·, v)) ++
        (entries.filter fun e => e.1.isMerge).flatMap fun (_, v) =>
          match v.merged? with
          | some parts => parts.flatMap (allEntries n)
          | none => [⟨none, [.noMapping]⟩]
    | problems => [⟨none, problems⟩]

/-- Of entries with the same key the first one. -/
private def firstEntries (seen : List String) :
    List (Decoded (String × Node)) → List (Decoded (String × Node))
  | [] => []
  | d :: rest =>
    match d.value with
    | some (key, _) =>
      if seen.contains key then firstEntries seen rest else d :: firstEntries (key :: seen) rest
    | none => d :: firstEntries seen rest

/-- Decodes the entries of a mapping one after the other, beginning with `empty`. -/
def decodeEntries {α : Type} (wanted : String) (empty : α)
    (add : String → Node → α → Decoded α) : Decoder α :=
  decodeNode (decodeWord wanted .nothing fun _ _ => none)
    (fun line tag _ => mismatch wanted line tag "")
    (fun _ _ entries =>
      let (a, problems) := (firstEntries [] (allEntries maxMergeDepth entries)).foldl
        (fun (a, problems) entry =>
          match entry.value with
          | some (key, node) =>
            let d := add key node a
            (d.value.getD a, problems ++ entry.problems ++ d.problems)
          | none => (a, problems ++ entry.problems)) (empty, [])
      ⟨some a, problems⟩)

/-- Decodes a mapping into a record; keys that no field has are passed over. -/
def decodeRecord {α : Type} (wanted : String) (empty : α)
    (field : String → Option (Node → α → Decoded α)) : Decoder α :=
  decodeEntries wanted empty fun key node record =>
    match field key with
    | some set => set node record
    | none => .ofValue record

def setField {α β : Type} (decoder : Decoder β) (set : β → α → α) (n : Node) (record : α) :
    Decoded α :=
  (decoder n).map fun b => set b record

end CallTargets.Document
