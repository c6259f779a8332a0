import CallTargets.IR.Module

/-!
# Values in their surroundings

A frame is a module and, inside a function, that function. In it an operand can be followed to the
instruction it names, through pointer casts and address computations.
-/
namespace CallTargets.IR

/-- The module and function in which values are looked at. -/
structure Frame where
  module : Module
  func : Option Func
deriving Inhabited

def maxCasts : Nat := 16

/-- How many nested address computations are looked through. -/
def maxGeps : Nat := 16

/-- A constant without its outer pointer casts, of which at most `n` are removed. -/
def Const.strip : Nat → Const → Const
  | n + 1, .cast kind c t => if kind.isPointerCast then c.strip n else .cast kind c t
  | _, c => c

/-- Whether a constant, casts apart, is a function. -/
def Const.isFunc (c : Const) : Bool :=
  match c.strip maxCasts with
  | .func _ => true
  | _ => false

/-- An address computation: an element type, a source and indices. -/
structure Gep where
  elem : Ty
  src : Value
  indices : List Value
deriving Inhabited

def Const.gep? : Const → Option Gep
  | .gep elem src indices => some ⟨elem, .const src, indices.map Value.const⟩
  | _ => none

namespace Frame

def inst? (fr : Frame) : Value → Option Inst
  | .inst b i => fr.func >>= fun f => f.inst? b i
  | _ => none

/-- Removes a number of casts at most. -/
def stripWithin (fr : Frame) : Nat → Value → Value
  | n, .const c => .const (c.strip n)
  | 0, v => v
  | n + 1, v =>
    match (fr.inst? v).map Inst.op with
    | some (.cast kind src _) => if kind.isPointerCast then fr.stripWithin n src else v
    | _ => v

def strip (fr : Frame) (v : Value) : Value :=
  fr.stripWithin maxCasts v

/-- The address computation a value is, as an instruction or as a constant. -/
def gep? (fr : Frame) (v : Value) : Option Gep :=
  match v with
  | .const c => c.gep?
  | _ =>
    match (fr.inst? v).map Inst.op with
    | some (.gep elem src indices) => some ⟨elem, src, indices⟩
    | _ => none

def global? (fr : Frame) : Value → Option Global
  | .const (.global i) => fr.module.globals[i]?
  | _ => none

/-- The global behind an address, through a number of address computations at most. -/
def baseGlobalWithin (fr : Frame) : Nat → Value → Option Global
  | 0, _ => none
  | n + 1, v =>
    match fr.strip v with
    | .const (.global i) => fr.module.globals[i]?
    | w => (fr.gep? w).bind fun g => fr.baseGlobalWithin n g.src

/-- The global an address points into, through casts and address computations. -/
def baseGlobal? (fr : Frame) (v : Value) : Option Global :=
  fr.baseGlobalWithin maxGeps v

end Frame
end CallTargets.IR
