/-!
# JSON text

Values are written over several lines, two blanks to a level. Besides what JSON asks for, the
characters that have a meaning in markup are escaped.
-/
namespace CallTargets

/-- A JSON value; a number is given by its text, and members keep their order. -/
inductive JsonValue where
  | null
  | number (text : String)
  | string (s : String)
  | array (items : List JsonValue)
  | object (members : List (String × JsonValue))
deriving Inhabited

namespace JsonValue

private def lowerHex (n : Nat) : Char :=
  if n < 10 then Char.ofNat (0x30 + n) else Char.ofNat (0x61 + (n - 10))

private def unicodeEscape (n : Nat) : List Char :=
  ['\\', 'u', lowerHex (n / 4096 % 16), lowerHex (n / 256 % 16), lowerHex (n / 16 % 16),
    lowerHex (n % 16)]

private def escapeChar (c : Char) : List Char :=
  match c with
  | '"' => ['\\', '"']
  | '\\' => ['\\', '\\']
  | '\n' => ['\\', 'n']
  | '\r' => ['\\', 'r']
  | '\t' => ['\\', 't']
  | _ =>
    let n := c.toNat
    if n = 8 then ['\\', 'b']
    else if n = 12 then ['\\', 'f']
    else if n < 0x20 || c == '<' || c == '>' || c == '&' || n == 0x2028 || n == 0x2029 then
      unicodeEscape n
    else [c]

def quote (s : String) : String :=
  String.ofList ('"' :: s.toList.flatMap escapeChar ++ ['"'])

private def indentation (level : Nat) : String :=
  "\n" ++ String.ofList (List.replicate (2 * level) ' ')

mutual

/-- A value that stands at a level of indentation. -/
def textAt (level : Nat) : JsonValue → String
  | .null => "null"
  | .number text => text
  | .string s => quote s
  | .array [] => "[]"
  | .array items =>
    "[" ++ itemsAt (level + 1) items ++ indentation level ++ "]"
  | .object [] => "\x7b\x7d"
  | .object members =>
    "\x7b" ++ membersAt (level + 1) members ++ indentation level ++ "\x7d"

def itemsAt (level : Nat) : List JsonValue → String
  | [] => ""
  | [v] => indentation level ++ textAt level v
  | v :: rest => indentation level ++ textAt level v ++ "," ++ itemsAt level rest

def membersAt (level : Nat) : List (String × JsonValue) → String
  | [] => ""
  | [(k, v)] => indentation level ++ quote k ++ ": " ++ textAt level v
  | (k, v) :: rest =>
    indentation level ++ quote k ++ ": " ++ textAt level v ++ "," ++ membersAt level rest

end

def text (v : JsonValue) : String := textAt 0 v

end JsonValue
end CallTargets
