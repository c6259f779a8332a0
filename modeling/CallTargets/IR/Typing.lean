import CallTargets.IR.Value

/-!
# Types of results

The type that an operation gives to its result. Vectors that come about have a fixed number of
lanes, also where those of the operands are multiples of an unknown one.
-/
namespace CallTargets.IR

namespace TypeDefs

variable (defs : TypeDefs)

def lane? (t : Ty) : Option Ty :=
  match defs.expand t with
  | .vector _ _ e => some e
  | _ => none

def lanes? (t : Ty) : Option UInt64 :=
  match defs.expand t with
  | .vector _ len _ => some len
  | _ => none

def comparison (t : Ty) : Ty :=
  match defs.lanes? t with
  | some len => .vector false len (.int 1)
  | none => .int 1

/-- The type inside an array or struct that numbers lead to. Each has to be in bounds. -/
def member? : Ty → List Nat → Option Ty
  | t, [] => some t
  | t, i :: is =>
    match defs.expand t with
    | .struct _ _ fields => fields[i]? >>= fun f => member? f is
    | .array len e => if i < len.toNat then member? e is else none
    | _ => none

/-- The type that follows from the type of a first operand, where there is one. -/
def typing? (t : Ty) : Typing → Option Ty
  | .same => some t
  | .comparison => some (defs.comparison t)
  | .lane => defs.lane? t
  | .lanes count => (defs.lane? t).map (.vector false count)
  | .member path => defs.member? t path

end TypeDefs

/-- What an index means for the type of an address: its value if it is known, and the number of
lanes if it is a vector. -/
structure GepIndex where
  value : Option Int
  lanes : Option UInt64
deriving DecidableEq, Repr, Inhabited

/-- The value that all elements of a constant vector have. -/
def commonValue? : List Const → Option Int
  | .int _ v :: rest =>
    if rest.all (fun | .int _ w => v == w | _ => false) then some v else none
  | _ => none

/-- What a constant means as an index. Other expressions than a converted pointer are no index. -/
def Const.gepIndex? : Const → Option GepIndex
  | .int _ v => some ⟨some v, none⟩
  | .plain _ => some ⟨some 0, none⟩
  | .vector _ elems => some ⟨commonValue? elems, some elems.length.toUInt64⟩
  | .cast .ptrToInt _ _ => some ⟨none, none⟩
  | _ => none

namespace TypeDefs

/-- The type that the indices behind the first lead to. A struct is entered by the value of the
index. -/
def indexed (defs : TypeDefs) : Ty → List GepIndex → Ty
  | t, [] => t
  | t, i :: is =>
    match defs.expand t with
    | .struct _ _ fields =>
      match fields[(i.value.getD 0).toNat]? with
      | some f => indexed defs f is
      | none => t
    | .array _ e | .vector _ _ e => indexed defs e is
    | _ => t

/-- The type of an address computation from a pointer of type `src`: a pointer to the type reached,
or a vector of such pointers when the source or an index is a vector. -/
def gepType (defs : TypeDefs) (elem src : Ty) (indices : List GepIndex) : Ty :=
  let pointer := match defs.expand ((defs.lane? src).getD src) with
    | .ptr space _ => .ptr space (defs.indexed elem indices.tail)
    | _ => .ptr 0 (defs.indexed elem indices.tail)
  match defs.lanes? src <|> indices.findSome? GepIndex.lanes with
  | some len => .vector false len pointer
  | none => pointer

end TypeDefs

/-! ### Equal types -/

def maxTypeDepth : Nat := 1024

mutual

/-- Whether two types are the same, of which only structs are told apart by their names. -/
def TypeDefs.sameWithin (defs : TypeDefs) : Nat → Ty → Ty → Bool
  | 0, _, _ => false
  | n + 1, t, u =>
    match defs.expand t, defs.expand u with
    | .void, .void | .label, .label | .token, .token | .metadata, .metadata | .mmx, .mmx => true
    | .float k, .float l => k == l
    | .int a, .int b => a == b
    | .ptr s a, .ptr r b => s == r && defs.sameWithin n a b
    | .array l a, .array k b => l == k && defs.sameWithin n a b
    | .vector s l a, .vector r k b => s == r && l == k && defs.sameWithin n a b
    | .func r ps v, .func q qs w => v == w && defs.sameWithin n r q && defs.sameListWithin n ps qs
    | .struct (.literal _) p fs, .struct (.literal _) q gs => p == q && defs.sameListWithin n fs gs
    | .struct (.named a) _ _, .struct (.named b) _ _ => a == b
    | .incomplete a, .incomplete b => a == b
    | _, _ => false

def TypeDefs.sameListWithin (defs : TypeDefs) : Nat → List Ty → List Ty → Bool
  | _, [], [] => true
  | 0, _, _ => false
  | n + 1, t :: ts, u :: us => defs.sameWithin n t u && defs.sameListWithin n ts us
  | _, _, _ => false

end

def TypeDefs.same (defs : TypeDefs) (t u : Ty) : Bool :=
  defs.sameWithin maxTypeDepth t u

end CallTargets.IR
