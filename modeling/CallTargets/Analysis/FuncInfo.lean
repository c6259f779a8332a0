import CallTargets.Analysis.Escape
import CallTargets.IR.Module
import CallTargets.Signature.Basic
import CallTargets.Sorting

/-!
# Functions whose address is taken

What is recorded of such a function: how its address escapes, into which struct fields it was
stored, and through which exported globals other modules can reach it. Every operation that adds
something also says whether it was new.
-/
namespace CallTargets

open IR

/-- A function of the program: its module and its position there. -/
structure FuncId where
  module : Nat
  index : Nat
deriving DecidableEq, Repr, Inhabited

/-- What the linker sees of a function. -/
structure Symbol where
  id : FuncId
  name : ByteString
  linkage : Linkage
  hasBody : Bool
deriving DecidableEq, Repr, Inhabited

def Symbol.isLocal (s : Symbol) : Bool := s.linkage.isLocal

def Symbol.isDiscardable (s : Symbol) : Bool := s.linkage.isDiscardable

/-- A body that no other body of the name can replace. -/
def Symbol.isStrong (s : Symbol) : Bool := s.hasBody && !s.isDiscardable

/-- A function whose address is taken. `evidence` holds the fields it was stored into, each as its
owner's signature combined with the index, and `owners` the structs of these fields. -/
structure FuncInfo where
  id : FuncId
  name : ByteString
  /-- The path of the module the function belongs to. -/
  module : ByteString
  sig : Signature
  isLocal : Bool
  escapes : Escapes
  evidence : List Signature
  owners : List Signature
  published : List ByteString
deriving DecidableEq, Repr, Inhabited

namespace FuncInfo

/-- A function of which nothing is recorded yet. -/
def ofSymbol (s : Symbol) (module : ByteString) (sig : Signature) : FuncInfo where
  id := s.id
  name := s.name
  module := module
  sig := sig
  isLocal := s.isLocal
  escapes := .none
  evidence := []
  owners := []
  published := []

def addNew {α : Type} [DecidableEq α] (a : α) (l : List α) : List α :=
  if a ∈ l then l else l ++ [a]

/-- Records that the function was stored into a field of a struct. -/
def addEvidence (fi : FuncInfo) (owner : Signature) (field : Int64) : Bool × FuncInfo :=
  let disc := Signature.layered owner field
  if disc ∈ fi.evidence then (false, fi)
  else (true, { fi with
    evidence := fi.evidence ++ [disc]
    owners := addNew owner fi.owners })

/-- Whether the function was stored into the field with a discriminator. -/
def hasEvidence (fi : FuncInfo) (disc : Signature) : Bool :=
  fi.evidence.contains disc

/-- Records that an exported global holds the function's address. -/
def publish (fi : FuncInfo) (global : ByteString) : Bool × FuncInfo :=
  if global ∈ fi.published then (false, fi)
  else (true, { fi with published := fi.published ++ [global] })

def markEscape (fi : FuncInfo) (e : Escapes) : Bool × FuncInfo :=
  if fi.escapes.includes e then (false, fi)
  else (true, { fi with escapes := fi.escapes.union e })

/-- Whether the address went where its type does not tell who can get at it. -/
def escapesModule (fi : FuncInfo) : Bool :=
  fi.escapes.meets .untracked

def sortedSignatures (l : List Signature) : List Signature :=
  sortBy (fun a b => a.bits < b.bits) l

def sortedEvidence (fi : FuncInfo) : List Signature := sortedSignatures fi.evidence

def sortedOwners (fi : FuncInfo) : List Signature := sortedSignatures fi.owners

def sortedPublished (fi : FuncInfo) : List ByteString :=
  sortBy ByteString.before fi.published

end FuncInfo

structure Target where
  id : FuncId
  name : ByteString
  module : ByteString
deriving DecidableEq, Repr, Inhabited

def FuncInfo.target (fi : FuncInfo) : Target := ⟨fi.id, fi.name, fi.module⟩

/-- Targets are ordered by name, then by module. -/
def Target.before (a b : Target) : Bool :=
  a.name.before b.name || (a.name == b.name && a.module.before b.module)

/-- The order of two targets as a number: negative, zero or positive. -/
def Target.compare (a b : Target) : Int :=
  if a.before b then -1 else if b.before a then 1 else 0

end CallTargets
