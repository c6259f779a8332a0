import CallTargets.IR.Type

/-!
# Constants and values

Symbols of the module are referred to by their position among the functions, globals, aliases or
resolved symbols; parameters and instructions by their position in the function. A value therefore
has no identity beyond its content.
-/
namespace CallTargets.IR

/-- Conversions. Only the first two keep the address a pointer holds. -/
inductive Cast where
  | bit
  | space
  | ptrToInt
  | intToPtr
  | numeric
deriving DecidableEq, Repr, Inhabited

/-- Whether a conversion only changes the type of a pointer. -/
def Cast.isPointerCast : Cast → Bool
  | .bit | .space => true
  | _ => false

/-- How the type of an expression follows from the type of its first operand. -/
inductive Typing where
  /-- It is the same type. -/
  | same
  /-- A truth value, or one for each lane of a vector. -/
  | comparison
  /-- What a lane of the vector holds. -/
  | lane
  /-- A vector of the same lanes with another number of them. -/
  | lanes (count : UInt64)
  /-- What numbers lead to inside the aggregate. -/
  | member (path : List Nat)
deriving DecidableEq, Repr, Inhabited

/-- A constant. `plain` is one without an address inside (`null`, a float, a character string),
`compute` an arithmetic or comparison expression, whose operands are not looked at. -/
inductive Const where
  | func (index : Nat)
  | global (index : Nat)
  | aliasRef (index : Nat)
  | resolved (index : Nat)
  | int (type : Ty) (value : Int)
  | plain (type : Ty)
  | struct (type : Ty) (fields : List Const)
  | array (type : Ty) (elems : List Const)
  | vector (type : Ty) (elems : List Const)
  | cast (kind : Cast) (src : Const) (type : Ty)
  | gep (elem : Ty) (src : Const) (indices : List Const)
  | select (cond ifTrue ifFalse : Const)
  | compute (typing : Typing) (first : Const) (rest : List Const)
deriving Repr, Inhabited

def Const.isExpression : Const → Bool
  | .cast _ _ _ | .gep _ _ _ | .select _ _ _ | .compute _ _ _ => true
  | _ => false

/-- An operand. `untracked` is a value nothing is known of but its type. -/
inductive Value where
  | const (c : Const)
  | param (index : Nat)
  | inst (block index : Nat)
  | asm (type : Ty)
  | untracked (type : Ty)
deriving Repr, Inhabited

end CallTargets.IR
