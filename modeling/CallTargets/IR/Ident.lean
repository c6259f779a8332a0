import CallTargets.ByteString
import CallTargets.Text.Integer

/-!
# Identifiers

A symbol is written with a name or with a number. A name that reads as a 64-bit integer is shown
between quotes, the number printed anew, so it cannot be mistaken for a numbered symbol.
-/
namespace CallTargets.IR

/-- How a global or local symbol is identified. -/
inductive Ident where
  | numbered (id : Int)
  | named (name : ByteString)
deriving DecidableEq, Repr, Inhabited, Ord

/-- The identifier with a given name; without one it is number zero. -/
def Ident.ofName (name : ByteString) : Ident :=
  if name.isEmpty then .numbered 0 else .named name

/-- The identifier written without quotes: digits of a 64-bit number are a number, anything else is
a name. -/
def Ident.ofPlain (cs : List Char) : Ident :=
  match (Text.readNat? cs).filter fun n => Text.fitsInt64 (Int.ofNat n) with
  | some n => .numbered n
  | none => .named (String.ofList cs)

/-- The name under which a symbol is known. -/
def Ident.name : Ident → ByteString
  | .numbered id => toString id
  | .named name =>
    match Text.readInt64? name.text with
    | some n => "\"" ++ toString n ++ "\""
    | none => name

end CallTargets.IR
