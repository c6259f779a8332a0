import CallTargets.IR.Type.Text
import CallTargets.Signature.Basic
import CallTargets.Signature.StructNames

/-!
# Signatures of types, functions and calls

A named struct is described by its name. A struct written in place borrows the name that the table
has for its shape. Everything else is described by its printed form without blanks.
-/
namespace CallTargets

open IR

/-- The description of a type; without a table no struct borrows a name. -/
def describe (table : Option StructNames) (defs : TypeDefs) (t : Ty) : ByteString :=
  match defs.expand t with
  | .struct (.named n) _ _ => ("%" : ByteString) ++ n
  | .incomplete n => ("%" : ByteString) ++ n
  | .struct (.literal id) packed fields =>
    match table.bind fun names => names.lookup (defs.shape fields) with
    | some n => ("%" : ByteString) ++ n
    | none => Signature.clean (Ty.definition (.struct (.literal id) packed fields))
  | _ => Signature.clean t.text

namespace Signature

/-- The signature of a type; no type at all has that of the empty text. -/
def ofType (table : Option StructNames) (defs : TypeDefs) : Option Ty → Signature
  | none => ofText ""
  | some t => ofText (describe table defs t)

def ofFuncType (t : Ty) : Signature :=
  ofText (clean t.text)

def ofFunc (f : Func) : Signature :=
  ofFuncType f.signature

def ofNamedFunc (f : Func) : Signature :=
  ofText (clean (f.signature.text ++ f.name.text))

end Signature

/-- The function type that a callee of the given type is called at. -/
def calledType? (defs : TypeDefs) (callee : Ty) : Option Ty :=
  match defs.expand callee with
  | .ptr _ e =>
    match defs.expand e with
    | .func _ _ _ => some e
    | _ => none
  | .func _ _ _ => some callee
  | _ => none

/-- The function type a call invokes: the one its callee points to, else one made from the types of
the result and the arguments. Without a result type there is none. -/
def invokedType? (defs : TypeDefs) (callee result : Option Ty) (args : List Ty) : Option Ty :=
  match callee.bind (calledType? defs) with
  | some t => some t
  | none => result.map fun r => .func r args false

namespace IR

def Module.callType? (m : Module) (f : Func) (c : Call) : Option Ty :=
  invokedType? m.typeDefs (c.callee.map (m.valueType f)) c.result (c.args.map (m.valueType f))

end IR

end CallTargets
