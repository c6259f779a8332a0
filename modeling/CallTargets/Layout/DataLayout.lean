import CallTargets.Assoc
import CallTargets.Text.Integer

/-!
# Data layouts

What a data layout says about pointers and integers. Specifications are separated by dashes and
their fields by colons; one that is unknown or malformed changes nothing.
-/
namespace CallTargets

/-- The size and alignment of pointers and the alignment of integers by width, in bytes. -/
structure DataLayout where
  pointerSize : Int64
  pointerAlign : Int64
  intAlign : Assoc UInt64 Int64
deriving Repr, Inhabited

namespace DataLayout

def standard : DataLayout :=
  ⟨8, 8, [(1, 1), (8, 1), (16, 2), (32, 4), (64, 8), (128, 16)]⟩

/-- A positive number of bits that makes whole bytes, in bytes. -/
def readBytes? (s : String) : Option Int64 :=
  ((Text.readInt64? s).filter fun n => 0 < n ∧ n % 8 = 0).map fun n => Int64.ofInt (n / 8)

/-- Applies a pointer specification: a size, which is also the alignment unless one is given. -/
def setPointer (l : DataLayout) (size : String) (more : List String) : DataLayout :=
  let l := match readBytes? size with
    | some n => { l with pointerSize := n, pointerAlign := n }
    | none => l
  match more.head?.bind readBytes? with
  | some n => { l with pointerAlign := n }
  | none => l

/-- Applies one specification, given by its fields. -/
def apply (l : DataLayout) : List String → DataLayout
  | name :: first :: more =>
    if name = "p" ∨ name = "p0" then l.setPointer first more
    else match name.toList with
      | 'i' :: width =>
        match Text.readBelow? UInt32.size (String.ofList width), readBytes? first with
        | some w, some n => { l with intAlign := l.intAlign.put w.toUInt64 n }
        | _, _ => l
      | _ => l
  | _ => l

/-- The parts of a text between the occurrences of a separator. -/
def parts (sep : Char) : List Char → List (List Char)
  | [] => [[]]
  | c :: cs =>
    if c = sep then [] :: parts sep cs
    else match parts sep cs with
      | [] => [[c]]
      | p :: ps => (c :: p) :: ps

def fields (spec : List Char) : List String :=
  (parts ':' spec).map String.ofList

def ofText (s : String) : DataLayout :=
  (parts '-' s.toList).foldl (fun l spec => l.apply (fields spec)) standard

end DataLayout
end CallTargets
