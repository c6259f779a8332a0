import CallTargets.Analysis.CallSite
import CallTargets.IR.Frame
import CallTargets.Signature.Describe

/-!
# What constants tell

The facts that a scan of a module finds. Constants are walked with an explicit stack: a function
that stands directly in a field of a constant struct is recorded for that field, and whatever is
nested deeper is put on the stack.
-/
namespace CallTargets

open IR

/-- A finding about a function of the module, given by its position, or an indirect call. -/
inductive Fact where
  | taken (func : Nat) (how : Escapes)
  | evidence (func : Nat) (owner : Signature) (field : Nat)
  | published (func : Nat) (global : ByteString)
  | call (site : CallSite)
deriving DecidableEq, Repr, Inhabited

def maxConstantNodes : Nat := 65536

/-- The types of a module seen through the struct names of the program. -/
structure TypeView where
  names : StructNames
  defs : TypeDefs
deriving Inhabited

def TypeView.signature (v : TypeView) (t : Ty) : Signature :=
  Signature.ofType (some v.names) v.defs (some t)

/-- A function was found in a constant, which may belong to an exported global. -/
def foundFunc (how : Escapes) (via : Option ByteString) (f : Nat) : List Fact :=
  .taken f how :: (via.map (Fact.published f)).toList

/-- The facts about functions that are fields of a constant struct, from a position on. -/
def fieldFacts (how : Escapes) (via : Option ByteString) (owner : Signature) :
    Nat → List Const → List Fact
  | _, [] => []
  | i, c :: cs =>
    match c.strip maxCasts with
    | .func f => foundFunc how via f ++ .evidence f owner i :: fieldFacts how via owner (i + 1) cs
    | _ => fieldFacts how via owner (i + 1) cs

/-- The facts in the constants on a stack, `n` of which are visited at most. -/
def stackFacts (v : TypeView) (how : Escapes) (via : Option ByteString) :
    Nat → List Const → List Fact
  | 0, _ => []
  | _ + 1, [] => []
  | n + 1, c :: stack =>
    match c.strip maxCasts with
    | .func f => foundFunc how via f ++ stackFacts v how via n stack
    | .struct t fields =>
      fieldFacts how via (v.signature t) 0 fields ++
        stackFacts v how via n ((fields.filter fun c => !c.isFunc).reverse ++ stack)
    | .array _ elems | .vector _ elems => stackFacts v how via n (elems.reverse ++ stack)
    | .cast .ptrToInt src _ | .cast .intToPtr src _ => stackFacts v how via n (src :: stack)
    | .gep _ src _ => stackFacts v how via n (src :: stack)
    | .select _ x y => stackFacts v how via n (y :: x :: stack)
    | _ => stackFacts v how via n stack

def constantFacts (v : TypeView) (how : Escapes) (via : Option ByteString) (c : Const) : List Fact :=
  stackFacts v how via maxConstantNodes [c]

/-- The facts in an operand: a function it is, or functions inside a constant. A global holds no
function by itself. -/
def operandFacts (v : TypeView) (fr : Frame) (how : Escapes) (operand : Value) : List Fact :=
  match fr.strip operand with
  | .const (.func f) => [.taken f how]
  | .const (.global _) => []
  | .const c => constantFacts v how none c
  | _ => []

end CallTargets
