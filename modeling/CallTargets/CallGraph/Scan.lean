import CallTargets.CallGraph.Fact
import CallTargets.Layout.Address
import CallTargets.Source.Location

/-!
# Scanning a module

Goes through the initial values of the globals and then through the functions, block by block, and
lists the facts in that order. An indirect call of which no function type can be told ends the
scan.
-/
namespace CallTargets

open IR

/-- An indirect call without a function type, and where it is. -/
structure NoSignature where
  location : Option Location
  module : ByteString
  caller : ByteString
deriving DecidableEq, Repr, Inhabited

def NoSignature.message (e : NoSignature) : String :=
  let place := match e.location with
    | some l => l.text ++ " (" ++ e.module.text ++ ", in " ++ e.caller.text ++ ")"
    | none => e.module.text ++ ", in " ++ e.caller.text
  "indirect call without a function type: " ++ place

/-- What one instruction contributes; after a failure nothing follows. -/
structure Found where
  facts : List Fact
  failure : Option NoSignature
deriving DecidableEq, Repr, Inhabited

def Found.ofFacts (facts : List Fact) : Found := ⟨facts, none⟩

/-- The facts of a scan in order. If a call failed, the facts of that instruction stand apart. -/
structure Scan where
  facts : List Fact
  failure : Option (List Fact × NoSignature)
deriving DecidableEq, Repr, Inhabited

/-- What a scan works with: the module, its number and path, and how its types are seen. -/
structure Scanner where
  index : Nat
  path : ByteString
  module : Module
  view : TypeView
  layout : Layout
deriving Inhabited

/-- What a scan remembers: the layouts of structs, and whether it came to a search without an
end. -/
structure Memory where
  layouts : LayoutCache
  endless : Bool
deriving Repr, Inhabited

def Memory.empty : Memory := ⟨[], false⟩

abbrev ScanM := StateM Memory

namespace Scanner

/-- The field an address designates. -/
def resolve (sc : Scanner) (fr : Frame) (addr : Value) : ScanM (Option FieldRef) := fun memory =>
  match sc.layout.resolve fr addr memory.layouts with
  | some (field, layouts) => (field, { memory with layouts := layouts })
  -- The scan goes on as if there were no field, but the mark says that nothing after it happens.
  | none => (none, { memory with endless := true })

def fieldSignature (sc : Scanner) (f : FieldRef) : Signature :=
  sc.view.signature f.owner.toTy

/-- Whether a callee, casts apart, is known: a function or inline assembly. -/
def isDirect (fr : Frame) (callee : Option Value) : Bool :=
  match callee.map fr.strip with
  | some (.const (.func _)) | some (.asm _) => true
  | _ => false

def provenance (sc : Scanner) (fr : Frame) (callee : Option Value) : ScanM (Option Provenance) :=
  match (callee.bind fun v => fr.inst? (fr.strip v)).map Inst.op with
  | some (.load _ src) => do
    match ← sc.resolve fr src with
    | some f => return some ⟨sc.fieldSignature f, Int64.ofNat f.index⟩
    | none => return none
  | _ => pure none

/-- The facts of a call: its arguments, and the call itself when it is indirect. -/
def callFacts (sc : Scanner) (f : Func) (id : CallId) (c : Call) (i : Inst) : ScanM Found := do
  let fr : Frame := ⟨sc.module, some f⟩
  let args := c.args.flatMap (operandFacts sc.view fr .argument)
  if isDirect fr c.callee then return .ofFacts args
  match sc.module.callType? f c with
  | none => return ⟨args, some ⟨Location.ofInst? i, sc.path, f.name⟩⟩
  | some t =>
    let p ← sc.provenance fr c.callee
    return .ofFacts (args ++ [.call {
      id := id
      caller := some ⟨id.module, id.func⟩
      module := sc.path
      sig := .ofFuncType t
      provenance := p
      layer := .unmatched
      callees := [] }])

def storeFacts (sc : Scanner) (fr : Frame) (src dst : Value) : ScanM (List Fact) := do
  match fr.strip src with
  -- A function that is stored as it stands is recorded for the field and for the exported global.
  | .const (.func f) =>
    let field := match ← sc.resolve fr dst with
      | some r => [Fact.evidence f (sc.fieldSignature r) r.index]
      | none => []
    let published := match fr.baseGlobal? dst with
      | some g => if g.linkage.isLocal then [] else [Fact.published f g.name]
      | none => []
    return .taken f .store :: field ++ published
  | _ => return operandFacts sc.view fr .store src

def instFacts (sc : Scanner) (f : Func) (id : CallId) (i : Inst) : ScanM Found := do
  let fr : Frame := ⟨sc.module, some f⟩
  match i.op with
  | .call c => sc.callFacts f id c i
  | .store src dst => return .ofFacts (← sc.storeFacts fr src dst)
  | op => return .ofFacts (op.operands.flatMap (operandFacts sc.view fr .other))

/-- The facts of a terminator: what it returns or passes on. -/
def termFacts (sc : Scanner) (f : Func) : Terminator → List Fact
  | .ret (some v) => operandFacts sc.view ⟨sc.module, some f⟩ .returned v
  | .invoke args => args.flatMap (operandFacts sc.view ⟨sc.module, some f⟩ .argument)
  | _ => []

/-- A step of a scan: an instruction or a terminator of a function. -/
inductive Step where
  | inst (f : Func) (id : CallId) (i : Inst)
  | term (f : Func) (t : Terminator)

def blockSteps (module func : Nat) (f : Func) (block : Nat) (b : Block) : List Step :=
  (b.insts.zipIdx.map fun (i, n) => Step.inst f ⟨module, func, block, n⟩ i) ++ [.term f b.term]

/-- The steps through all functions of a module in text order. -/
def steps (sc : Scanner) : List Step :=
  sc.module.funcs.zipIdx.flatMap fun (f, n) =>
    f.blocks.zipIdx.flatMap fun (b, k) => blockSteps sc.index n f k b

def stepFacts (sc : Scanner) : Step → ScanM Found
  | .inst f id i => sc.instFacts f id i
  | .term f t => pure (.ofFacts (sc.termFacts f t))

/-- Runs through steps until one fails; `before` holds the facts so far, in reverse. -/
def runSteps (sc : Scanner) : List Step → List (List Fact) → ScanM Scan
  | [], before => pure ⟨before.reverse.flatten, none⟩
  | s :: rest, before => do
    let found ← sc.stepFacts s
    match found.failure with
    | some e => return ⟨before.reverse.flatten, some (found.facts, e)⟩
    | none => sc.runSteps rest (found.facts :: before)

/-- The facts in the initial value of a global, published under its name when it is exported. -/
def globalFacts (sc : Scanner) (g : Global) : List Fact :=
  match g.init with
  | some c => constantFacts sc.view .global (if g.linkage.isLocal then none else some g.name) c
  | none => []

def scan (sc : Scanner) : ScanM Scan :=
  sc.runSteps sc.steps [sc.module.globals.flatMap sc.globalFacts]

end Scanner
end CallTargets
