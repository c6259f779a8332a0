import CallTargets.IR.Debug
import CallTargets.IR.Ident
import CallTargets.IR.Typing

/-!
# Modules

A module is its type definitions, globals, aliases, resolved symbols and functions, the latter
with their blocks.
Globals and functions stand in text order, type definitions in natural order of their names.
-/
namespace CallTargets.IR

inductive Linkage where
  | unspecified
  | appending
  | availableExternally
  | common
  | external
  | externWeak
  | internalOnly
  | linkOnce
  | linkOnceODR
  | privateOnly
  | weak
  | weakODR
deriving DecidableEq, Repr, Inhabited

def Linkage.ofKeyword? : String → Option Linkage
  | "appending" => some .appending
  | "available_externally" => some .availableExternally
  | "common" => some .common
  | "external" => some .external
  | "extern_weak" => some .externWeak
  | "internal" => some .internalOnly
  | "linkonce" => some .linkOnce
  | "linkonce_odr" => some .linkOnceODR
  | "private" => some .privateOnly
  | "weak" => some .weak
  | "weak_odr" => some .weakODR
  | _ => none

/-- The symbol cannot be named from another module. -/
def Linkage.isLocal : Linkage → Bool
  | .internalOnly | .privateOnly => true
  | _ => false

/-- Several modules may carry a body of the symbol, and the linker keeps one of them. -/
def Linkage.isDiscardable : Linkage → Bool
  | .linkOnce | .linkOnceODR | .weak | .weakODR | .availableExternally => true
  | _ => false

/-- A call: what is called, the type of its result, the arguments. The first two may be unknown. -/
structure Call where
  callee : Option Value
  result : Option Ty
  args : List Value
deriving Repr, Inhabited

/-- What an instruction does. `other` holds the operands of every instruction not told apart. -/
inductive Op where
  | call (c : Call)
  | store (src dst : Value)
  | load (elem : Ty) (src : Value)
  | alloca (elem : Ty) (count : Option Value)
  | gep (elem : Ty) (src : Value) (indices : List Value)
  | cast (kind : Cast) (src : Value) (type : Ty)
  | other (operands : List Value)
deriving Repr, Inhabited

/-- An instruction with the type of its result. -/
structure Inst where
  op : Op
  type : Ty
  attachments : List Attachment
deriving Repr, Inhabited

def Op.operands : Op → List Value
  | .call c => c.args ++ c.callee.toList
  | .store src dst => [src, dst]
  | .load _ src => [src]
  | .alloca _ count => count.toList
  | .gep _ src indices => src :: indices
  | .cast _ src _ => [src]
  | .other operands => operands

inductive Terminator where
  | ret (value : Option Value)
  | invoke (args : List Value)
  | other
deriving Repr, Inhabited

structure Block where
  insts : List Inst
  term : Terminator
deriving Repr, Inhabited

structure Func where
  ident : Ident
  linkage : Linkage
  /-- The address space of the function. -/
  space : Nat
  ret : Ty
  params : List Ty
  variadic : Bool
  blocks : List Block
  attachments : List Attachment
deriving Repr, Inhabited

def Func.name (f : Func) : ByteString := f.ident.name

def Func.signature (f : Func) : Ty := .func f.ret f.params f.variadic

/-- Without a body, a function is only declared. -/
def Func.isDeclaration (f : Func) : Bool := f.blocks.isEmpty

def Func.inst? (f : Func) (block index : Nat) : Option Inst :=
  f.blocks[block]? >>= fun b => b.insts[index]?

structure Global where
  ident : Ident
  linkage : Linkage
  space : Nat
  content : Ty
  init : Option Const
deriving Repr, Inhabited

def Global.name (g : Global) : ByteString := g.ident.name

/-- Another name for an address, or a symbol that a resolver function finds the address of. -/
structure Alias where
  ident : Ident
  space : Nat
  content : Ty
deriving Repr, Inhabited

structure Module where
  dataLayout : String
  typeDefs : TypeDefs
  globals : List Global
  aliases : List Alias
  resolved : List Alias
  funcs : List Func
deriving Repr, Inhabited

def Module.empty : Module := ⟨"", [], [], [], [], []⟩

def Module.constType (m : Module) : Const → Ty
  | .func i => (m.funcs[i]?.map fun f => .ptr f.space f.signature).getD .void
  | .global i => (m.globals[i]?.map fun g => .ptr g.space g.content).getD .void
  | .aliasRef i => (m.aliases[i]?.map fun a => .ptr a.space a.content).getD .void
  | .resolved i => (m.resolved[i]?.map fun a => .ptr a.space a.content).getD .void
  | .int t _ | .plain t | .struct t _ | .array t _ | .vector t _ => t
  | .cast _ _ t => t
  | .gep elem src indices =>
    m.typeDefs.gepType elem (m.constType src) (indices.map fun c => c.gepIndex?.getD ⟨none, none⟩)
  | .select _ x _ => m.constType x
  | .compute typing x _ => (m.typeDefs.typing? (m.constType x) typing).getD .void

def Module.valueType (m : Module) (f : Func) : Value → Ty
  | .const c => m.constType c
  | .param i => (f.params[i]?).getD .void
  | .inst b i => ((f.inst? b i).map Inst.type).getD .void
  | .asm t | .untracked t => t

def Inst.mapCall (g : Nat → Call → Call) (next : Nat) (i : Inst) : Nat × Inst :=
  match i.op with
  | .call c => (next + 1, { i with op := .call (g next c) })
  | _ => (next, i)

def Block.mapCalls (g : Nat → Call → Call) (next : Nat) (b : Block) : Nat × Block :=
  let r := b.insts.foldl (fun (n, is) i => let (n, i) := i.mapCall g n; (n, is ++ [i])) (next, [])
  (r.1, { b with insts := r.2 })

def Func.mapCalls (g : Nat → Call → Call) (next : Nat) (f : Func) : Nat × Func :=
  let r := f.blocks.foldl
    (fun (n, bs) b => let (n, b) := b.mapCalls g n; (n, bs ++ [b])) (next, [])
  (r.1, { f with blocks := r.2 })

/-- Changes the calls of a module, each by its number in text order. -/
def Module.mapCalls (g : Nat → Call → Call) (m : Module) : Module :=
  let r := m.funcs.foldl (fun (n, fs) f => let (n, f) := f.mapCalls g n; (n, fs ++ [f])) (0, [])
  { m with funcs := r.2 }

end CallTargets.IR
