import CallTargets.Analysis.FuncInfo

/-!
# Programs

A program is a list of modules under the paths they were loaded from. A module may be without
content. Functions are numbered by module and position.
-/
namespace CallTargets

open IR

structure ModuleFile where
  path : ByteString
  content : Option Module
deriving Inhabited

abbrev Program := List ModuleFile

def Symbol.ofFunc (module index : Nat) (f : Func) : Symbol :=
  ⟨⟨module, index⟩, f.name, f.linkage, !f.isDeclaration⟩

namespace Program

def contents (p : Program) : List Module :=
  p.filterMap ModuleFile.content

def moduleSymbols (module : Nat) (file : ModuleFile) : List Symbol :=
  match file.content with
  | some m => m.funcs.zipIdx.map fun (f, i) => .ofFunc module i f
  | none => []

def symbols (p : Program) : List Symbol :=
  p.zipIdx.flatMap fun (file, i) => moduleSymbols i file

def func? (p : Program) (id : FuncId) : Option Func :=
  p[id.module]? >>= fun file => file.content >>= fun m => m.funcs[id.index]?

def symbol? (p : Program) (id : FuncId) : Option Symbol :=
  (p.func? id).map (.ofFunc id.module id.index)

/-- The path of a module; there is none outside of the program. -/
def path (p : Program) (module : Nat) : ByteString :=
  (p[module]?.map ModuleFile.path).getD ""

end Program
end CallTargets
