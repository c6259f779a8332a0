import CallTargets.IR.Type
import CallTargets.Text.Quoted

/-!
# Printed types

`Ty.text` is a type as it is written where it is used: a named type by its name, any other by its
structure. `Ty.definition` is the structure of the type itself, its members as they are used.
-/
namespace CallTargets.IR

def FloatKind.text : FloatKind → String
  | .half => "half"
  | .single => "float"
  | .double => "double"
  | .x86fp80 => "x86_fp80"
  | .fp128 => "fp128"
  | .ppcfp128 => "ppc_fp128"

def typeNameText (name : ByteString) : String :=
  "%" ++ Text.quoteName name

def paramsText (params : List String) (variadic : Bool) : String :=
  ", ".intercalate (if variadic then params ++ ["..."] else params)

/-- The members of a struct between its braces. -/
def bodyText (packed : Bool) (fields : List String) : String :=
  let inner := if fields.isEmpty then "\x7b\x7d" else "\x7b " ++ ", ".intercalate fields ++ " \x7d"
  if packed then "<" ++ inner ++ ">" else inner

mutual

def Ty.text : Ty → String
  | .void => "void"
  | .label => "label"
  | .token => "token"
  | .metadata => "metadata"
  | .mmx => "x86_mmx"
  | .float k => k.text
  | .int bits => "i" ++ toString bits.toNat
  | .ptr space e =>
    if space = 0 then e.text ++ "*" else e.text ++ " addrspace(" ++ toString space ++ ")*"
  | .array len e => "[" ++ toString len.toNat ++ " x " ++ e.text ++ "]"
  | .vector scalable len e =>
    "<" ++ (if scalable then "vscale x " else "") ++ toString len.toNat ++ " x " ++ e.text ++ ">"
  | .func r ps variadic => r.text ++ " (" ++ paramsText (Ty.texts ps) variadic ++ ")"
  | .struct (.named n) _ _ => typeNameText n
  | .struct (.literal _) packed fields => bodyText packed (Ty.texts fields)
  | .incomplete n => typeNameText n
  | .named n => typeNameText n

def Ty.texts : List Ty → List String
  | [] => []
  | t :: ts => t.text :: Ty.texts ts

end

/-- The structure of a type, its members as they are used. -/
def Ty.definition : Ty → String
  | .struct _ packed fields => bodyText packed (Ty.texts fields)
  | .incomplete _ => "opaque"
  | t => t.text

theorem texts_eq_map (ts : List Ty) : Ty.texts ts = ts.map Ty.text := by
  induction ts with
  | nil => rfl
  | cons t ts ih => simp [Ty.texts, ih]

end CallTargets.IR
