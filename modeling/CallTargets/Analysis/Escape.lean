/-!
# How an address escapes

A set of ways in which the address of a function leaves the place that mentions it.
-/
namespace CallTargets

/-- A set of escapes, one bit each. -/
structure Escapes where
  bits : UInt8
deriving DecidableEq, Repr, Inhabited

namespace Escapes

def none : Escapes := ⟨0⟩

def store : Escapes := ⟨1⟩

def argument : Escapes := ⟨2⟩

def returned : Escapes := ⟨4⟩

def global : Escapes := ⟨8⟩

def other : Escapes := ⟨16⟩

def union (a b : Escapes) : Escapes := ⟨a.bits ||| b.bits⟩

/-- Whether all of `b` belongs to `a`. -/
def includes (a b : Escapes) : Bool := a.bits &&& b.bits == b.bits

/-- Whether `a` and `b` share an escape. -/
def meets (a b : Escapes) : Bool := a.bits &&& b.bits != 0

/-- The escapes that no type leads back to: into a call, out of a function, or otherwise. -/
def untracked : Escapes := argument.union (returned.union other)

def text (e : Escapes) : String :=
  if e.bits = 0 then "none"
  else
    let named := [(store, "store"), (argument, "argument"), (returned, "return"),
      (global, "global"), (other, "other")]
    "|".intercalate ((named.filter fun p => e.meets p.1).map Prod.snd)

end Escapes
end CallTargets
