import CallTargets.Document.Scalar

/-!
# Documents

A document is a tree of scalars, sequences and mappings. A tag may say what a scalar stands for,
and a part may refer to one that has a name.
-/
namespace CallTargets.Document

/-- A scalar as it is written, and the line it begins in. -/
structure Word where
  line : Nat
  /-- The tag that was given. -/
  given : Option String
  quoted : Bool
  text : String
deriving DecidableEq, Repr, Inhabited

/-- A part of a document. Sequences and mappings carry their tag and the line they begin in. -/
inductive Node where
  | scalar (word : Word)
  | sequence (line : Nat) (tag : String) (items : List Node)
  | mapping (line : Nat) (tag : String) (entries : List (Node × Node))
  /-- Stands for a part by its name. It has no target inside of the part itself. -/
  | reference (line : Nat) (name : String) (target : Option Node)
deriving Inhabited

def sequenceTag : String := "!!seq"

def mappingTag : String := "!!map"

def Node.missing (line : Nat) : Node := .scalar ⟨line, none, false, ""⟩

def Node.line : Node → Nat
  | .scalar w => w.line
  | .sequence line _ _ => line
  | .mapping line _ _ => line
  | .reference line _ _ => line

/-- The text by which keys are told apart; lists and mappings have none. -/
def Node.keyText : Node → String
  | .scalar w => w.text
  | .reference _ name _ => name
  | _ => ""

def Node.sameKey : Node → Node → Bool
  | .scalar v, .scalar w => v.text == w.text
  | .reference _ a _, .reference _ b _ => a == b
  | .sequence _ _ _, .sequence _ _ _ => true
  | .mapping _ _ _, .mapping _ _ _ => true
  | _, _ => false

/-- The entries of a mapping, also of one that is referred to. -/
def Node.entries? : Node → Option (List (Node × Node))
  | .mapping _ _ entries => some entries
  | .reference _ _ (some (.mapping _ _ entries)) => some entries
  | _ => none

/-- The mappings that are merged where a node is the value: one, or a list of them. -/
def Node.merged? : Node → Option (List (List (Node × Node)))
  | .sequence _ _ items => items.mapM entries?
  | n => n.entries?.map fun entries => [entries]

namespace Word

/-- The tag of a scalar; without a given one, it depends on the spelling. -/
def tag (w : Word) : String :=
  match w.given with
  | some tag => tag
  | none => if w.quoted then "!!str" else (Scalar.ofPlain true w.text).tag

def isText (w : Word) : Bool :=
  match w.given with
  | some tag => tag == "!!str" || tag == "!!binary"
  | none => w.quoted

/-- What the spelling of a scalar says; only a given tag of another kind keeps it from being a
date. -/
def spelled (w : Word) : Scalar :=
  .ofPlain (w.given.all (· == "!!timestamp")) w.text

/-- What a scalar stands for, unless its spelling does not fit its tag. A whole number fits the tag
of fractions too. -/
def scalar? (w : Word) : Option Scalar :=
  if w.isText then some (.text w.text)
  else
    let v := w.spelled
    match w.given with
    | none => some v
    | some tag =>
      if v.tag = tag then some v
      else match tag, v with
        | "!!float", .int n =>
          if n ≤ Int64.maxValue.toInt then some (.float (Float.ofInt n)) else none
        | _, _ => none

end Word

/-- Whether a key asks for another mapping to be merged. -/
def Node.isMerge : Node → Bool
  | .scalar w => w.text == "<<" && w.tag == Scalar.merge.tag
  | _ => false

end CallTargets.Document
