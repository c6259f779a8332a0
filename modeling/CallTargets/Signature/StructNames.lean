import CallTargets.Assoc
import CallTargets.IR.Module
import CallTargets.IR.Type.Walk
import CallTargets.Signature.Shape

/-!
# Names for structs written in place

A struct that one module writes in place may have a name in another. The table lists, for every
shape, the names that structs of that shape have anywhere in the program, in the order in which
they are met; the first one stands for all structs of the shape.
-/
namespace CallTargets

open IR

/-- The names of each shape, and for each shape of a struct written in place whether it has one. -/
structure StructNames where
  names : Assoc String (List ByteString)
  written : Assoc String Bool
deriving Repr, Inhabited

/-- How large the table is and how many shapes written in place it names. -/
structure StructNames.Stats where
  namedShapes : Nat
  names : Nat
  resolved : Nat
  unresolvable : Nat
deriving DecidableEq, Repr, Inhabited

namespace StructNames

/-- Adds a name to a shape unless the shape has it. -/
def register (names : Assoc String (List ByteString)) (shape : String) (name : ByteString) :
    Assoc String (List ByteString) :=
  names.alter shape fun old =>
    let known := old.getD []
    if known.contains name then known else known ++ [name]

/-- Adds the named structs of a module that have a body, in the order of their definitions. -/
def registerModule (names : Assoc String (List ByteString)) (m : Module) :
    Assoc String (List ByteString) :=
  m.typeDefs.foldl (fun names (name, t) =>
    match t with
    | .struct _ _ fields => register names (m.typeDefs.shape fields) name
    | _ => names) names

/-- The types of a module in which structs may be written: definitions, globals, signatures. -/
def declaredTypes (m : Module) : List Ty :=
  m.typeDefs.map Prod.snd ++ m.globals.map Global.content ++ m.funcs.map Func.signature

/-- The shapes of the structs a module writes in place. The types of different modules are different
types, so a walk through one module meets none that a walk through another has seen. -/
def writtenShapes (m : Module) : List String :=
  (TypeGraph.ofTypes m.typeDefs false (declaredTypes m)).walk.structs.filterMap fun s =>
    match s.id with
    | .literal _ => some (m.typeDefs.shape s.fields)
    | .named _ => none

/-- The names of a shape in the order in which they were met. -/
def namesOf (t : StructNames) (shape : String) : List ByteString :=
  (t.names.get? shape).getD []

def lookup (t : StructNames) (shape : String) : Option ByteString :=
  (t.namesOf shape).head?

def ofModules (ms : List Module) : StructNames :=
  let names := ms.foldl registerModule []
  let shapes := ms.flatMap writtenShapes
  ⟨names, shapes.foldl (fun w s => w.put s !((names.get? s).getD []).isEmpty) []⟩

def stats (t : StructNames) : Stats where
  namedShapes := t.names.length
  names := (t.names.flatMap Prod.snd).length
  resolved := (t.written.filter Prod.snd).length
  unresolvable := (t.written.filter fun p => !p.2).length

end StructNames
end CallTargets
