import CallTargets.IR.Module
import CallTargets.IR.Type.Walk

/-!
# What a module can see

The struct types that a walk through the types of a module comes to, and the exported globals that
the module defines or declares.
-/
namespace CallTargets.IR

/-- The element type of an instruction that works on memory of a known type. -/
def Op.memoryType? : Op → Option Ty
  | .alloca t _ | .gep t _ _ | .load t _ => some t
  | _ => none

/-- The types that a module writes where it defines types, globals and functions and where it uses
memory. -/
def Module.usedTypes (m : Module) : List Ty :=
  m.typeDefs.map Prod.snd ++ m.globals.map Global.content ++
    m.funcs.flatMap fun f =>
      f.signature :: f.blocks.flatMap fun b => b.insts.filterMap fun i => i.op.memoryType?

def Module.typeGraph (m : Module) : TypeGraph :=
  .ofTypes m.typeDefs true m.usedTypes

/-- The struct types of a module, in the order in which the walk finds them. -/
def Module.structTypes (m : Module) : List StructTy :=
  m.typeGraph.walk.structs

/-- The names of the globals of a module that other modules can name as well. -/
def Module.exportedGlobals (m : Module) : List ByteString :=
  (m.globals.filter fun g => !g.linkage.isLocal).map Global.name

end CallTargets.IR
