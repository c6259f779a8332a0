import CallTargets.ByteString
import CallTargets.Signature.Hash
import CallTargets.Text.Blank

/-!
# Signatures and the text they are taken of

A signature is the hash of a canonical description of a type. `clean` brings a printed type into
that form: an implicit class parameter at the front of a parameter list is dropped, then every
blank. `layered` ties a signature to a field and `salted` ties it to a module.
-/
namespace CallTargets

/-- The structural identity of a type, a function or a call. -/
structure Signature where
  bits : UInt64
deriving DecidableEq, Repr, Inhabited

namespace Signature

instance : Ord Signature := ⟨fun a b => compare a.bits b.bits⟩

def ofText (s : ByteString) : Signature :=
  ⟨hashBytes s.bytes⟩

def wordBytes (w : UInt64) : List UInt8 :=
  (List.range 8).map fun i => (w >>> (8 * i).toUInt64).toUInt8

/-- A signature combined with the index of a field, the signature first. -/
def layered (owner : Signature) (field : Int64) : Signature :=
  ⟨hashBytes (wordBytes owner.bits ++ wordBytes field.toUInt64)⟩

/-- A signature that holds in one module only: the path, a zero byte, the signature. -/
def salted (module : ByteString) (sig : Signature) : Signature :=
  ⟨hashBytes (module.bytes ++ 0 :: wordBytes sig.bits)⟩

def classNameChar (c : Char) : Bool :=
  c.isAlphanum || c == '_'

/-- Matches an implicit class parameter at the front of `cs`, after its opening bracket:
`%class.` and a name of letters, digits and underscores, a star, and a comma if there is one. -/
def dropClassParameter (cs : List Char) : Option (List Char) :=
  if "%class.".toList.isPrefixOf cs then
    let rest := cs.drop 7
    match rest.takeWhile classNameChar, rest.dropWhile classNameChar with
    | _ :: _, '*' :: ',' :: after => some after
    | _ :: _, '*' :: after => some after
    | _, _ => none
  else none

/-- Drops the first implicit class parameter that stands behind an opening bracket. -/
def dropThis : List Char → List Char
  | [] => []
  | '(' :: cs =>
    match dropClassParameter cs with
    | some after => '(' :: after
    | none => '(' :: dropThis cs
  | c :: cs => c :: dropThis cs

/-- The canonical form of a printed type. -/
def clean (s : String) : String :=
  String.ofList (Text.dropBlanks (dropThis s.toList))

end Signature
end CallTargets
