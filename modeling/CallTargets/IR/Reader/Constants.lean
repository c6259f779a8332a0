import CallTargets.IR.Reader.Types
import CallTargets.IR.Module

/-!
# Reading constants

A constant is read at the type written before it. A literal whose kind does not fit that type is
refused, and so is a symbol that nothing defines.
-/
namespace CallTargets.IR

/-- What names stand for while values are read. -/
structure Names where
  defs : TypeDefs
  symbol : Ident → Option Const
  loc : Ident → Option Value
  block : Ident → Bool

namespace Reader

def binaryOperators : List String :=
  ["add", "fadd", "sub", "fsub", "mul", "fmul", "udiv", "sdiv", "fdiv", "urem", "srem", "frem",
   "shl", "lshr", "ashr", "and", "or", "xor"]

def fastFlags : List String :=
  ["nnan", "ninf", "nsz", "arcp", "contract", "afn", "reassoc", "fast"]

def skipIntegerFlags (op : String) : Reader Unit := do
  if ["add", "sub", "mul", "shl"].contains op then skipWords ["nuw", "nsw"]
  else if ["udiv", "sdiv", "lshr", "ashr"].contains op then
    let _ ← acceptWord "exact"

def skipOperatorFlags (op : String) : Reader Unit := do
  if ["fadd", "fsub", "fmul", "fdiv", "frem"].contains op then skipWords fastFlags
  else skipIntegerFlags op

/-- The predicates of an integer or floating-point comparison. -/
def predicates : String → List String
  | "icmp" => ["eq", "ne", "ugt", "uge", "ult", "ule", "sgt", "sge", "slt", "sle"]
  | _ => ["false", "oeq", "ogt", "oge", "olt", "ole", "one", "ord", "ueq", "ugt", "uge", "ult",
    "ule", "une", "uno", "true"]

def cast? : String → Option Cast
  | "bitcast" => some .bit
  | "addrspacecast" => some .space
  | "ptrtoint" => some .ptrToInt
  | "inttoptr" => some .intToPtr
  | "trunc" | "zext" | "sext" | "fptrunc" | "fpext" | "fptoui" | "fptosi" | "uitofp" | "sitofp" =>
    some .numeric
  | _ => none

/-- A hexadecimal literal: as it is, or as two's complement in a number of bits. -/
private def hexValue (signed : Bool) (bits n : Nat) : Int :=
  if signed ∧ 0 < bits ∧ n.testBit (bits - 1) then Int.ofNat n - Int.ofNat (1 <<< bits)
  else Int.ofNat n

private def guardThat (b : Bool) : Reader Unit := unless b do failure

/-- A predicate of the comparison `op`. -/
def predicate (op : String) : Reader Unit := do
  match ← next with
  | .word w => guardThat ((predicates op).contains w)
  | _ => failure

private def constantIndices (typed : Reader (Ty × Const)) : Nat → Reader (List Const)
  | 0 => failure
  | n + 1 => do
    if ← acceptSym ',' then
      let _ ← acceptWord "inrange"
      let (_, c) ← typed
      return c :: (← constantIndices typed n)
    else return []

private def numbersBehindCommas : Nat → Reader (List Nat)
  | 0 => failure
  | n + 1 => do
    if ← acceptSym ',' then
      let i ← number
      return i :: (← numbersBehindCommas n)
    else return []

/-- A constant address computation behind its operator, with the type written for its source. -/
private def gepExpression (typed : Reader (Ty × Const)) : Reader (Ty × Const) := do
  let _ ← acceptWord "inbounds"
  expectSym '('
  let elem ← type
  expectSym ','
  let (t, src) ← typed
  let indices ← constantIndices typed (← budget)
  expectSym ')'
  return (t, .gep elem src indices)

private def expression (names : Names) (typed : Reader (Ty × Const)) (op : String) :
    Reader Const := do
  let operand : Reader Const := do return (← typed).2
  let further : Reader Const := do
    expectSym ','
    operand
  if let some kind := cast? op then
    expectSym '('
    let c ← operand
    expectWord "to"
    let t ← type
    expectSym ')'
    return .cast kind c t
  else if binaryOperators.contains op then
    skipIntegerFlags op
    expectSym '('
    let x ← operand
    let y ← further
    expectSym ')'
    return .compute .same x [y]
  else match op with
    | "fneg" =>
      expectSym '('
      let x ← operand
      expectSym ')'
      return .compute .same x []
    | "icmp" | "fcmp" =>
      predicate op
      expectSym '('
      let x ← operand
      let y ← further
      expectSym ')'
      return .compute .comparison x [y]
    | "select" =>
      expectSym '('
      let c ← operand
      let x ← further
      let y ← further
      expectSym ')'
      return .select c x y
    | "getelementptr" => return (← gepExpression typed).2
    | "extractvalue" =>
      expectSym '('
      let x ← operand
      let path ← numbersBehindCommas (← budget)
      expectSym ')'
      return .compute (.member path) x []
    | "insertvalue" =>
      expectSym '('
      let x ← operand
      let e ← further
      let _ ← numbersBehindCommas (← budget)
      expectSym ')'
      return .compute .same x [e]
    | "extractelement" =>
      expectSym '('
      let x ← operand
      let i ← further
      expectSym ')'
      return .compute .lane x [i]
    | "insertelement" =>
      expectSym '('
      let x ← operand
      let e ← further
      let i ← further
      expectSym ')'
      return .compute .same x [e, i]
    | "shufflevector" =>
      expectSym '('
      let x ← operand
      let y ← further
      expectSym ','
      let (mask, z) ← typed
      expectSym ')'
      match names.defs.lanes? mask with
      | some count => return .compute (.lanes count) x [y, z]
      | none => failure
    | _ => failure

/-- The address of a block. That the block exists is seen at the end of the text. -/
private def blockAddress (names : Names) (t : Ty) : Reader Const := do
  expectSym '('
  match ← next with
  | .global f =>
    match names.symbol f with
    | some (.func _) =>
      expectSym ','
      match ← next with
      | .loc b =>
        expectSym ')'
        modify fun c => { c with blockAddresses := (f, b) :: c.blockAddresses }
        return .plain t
      | _ => failure
    | _ => failure
  | _ => failure

private def literalWord (names : Names) (t : Ty) (w : String) : Option (Reader Const) :=
  let kind := names.defs.expand t
  match w with
  | "true" => some (match kind with | .int 1 => pure (.int t 1) | _ => failure)
  | "false" => some (match kind with | .int 1 => pure (.int t 0) | _ => failure)
  | "null" => some (match kind with | .ptr _ _ => pure (.plain t) | _ => failure)
  | "none" => some (match kind with | .token => pure (.plain t) | _ => failure)
  | "undef" | "poison" | "zeroinitializer" => some (pure (.plain t))
  | "c" => some do
    let s ← quotedText
    match kind with
    | .array len e =>
      match names.defs.expand e with
      | .int 8 => guardThat (len.toNat == s.length); return .plain t
      | _ => failure
    | _ => failure
  | "blockaddress" => some (blockAddress names t)
  | "dso_local_equivalent" => some do
    match ← next with
    | .global i => guardThat (names.symbol i).isSome; return .plain t
    | _ => failure
  | _ => none

private def constantWithin (names : Names) : Nat → Ty → Reader Const
  | 0, _ => failure
  | n + 1, t => do
    let typed : Reader (Ty × Const) := do
      let u ← type
      return (u, ← constantWithin names n u)
    let elements (close : Char) : Reader (List Const) := do
      return (← listUntil close typed).map Prod.snd
    let someElements (close : Char) : Reader (List Const) := do
      let elems ← elements close
      guardThat !elems.isEmpty
      return elems
    let kind := names.defs.expand t
    match ← next with
    | .global i =>
      match names.symbol i with
      | some c => return c
      | none => failure
    | .int v =>
      match kind with
      | .int _ => return .int t v
      | _ => failure
    | .hexInt signed v =>
      match kind with
      | .int bits => return .int t (hexValue signed bits.toNat v)
      | _ => failure
    | .float =>
      match kind with
      | .float _ => return .plain t
      | _ => failure
    | .sym '{' =>
      match kind with
      | .struct _ _ _ => return .struct t (← elements '}')
      | _ => failure
    | .sym '[' =>
      match kind with
      | .array _ _ => return .array t (← someElements ']')
      | _ => failure
    | .sym '<' =>
      if ← acceptSym '{' then
        match kind with
        | .struct _ _ _ =>
          let fields ← elements '}'
          expectSym '>'
          return .struct t fields
        | _ => failure
      else match kind with
        | .vector _ _ _ => return .vector t (← someElements '>')
        | _ => failure
    | .word w =>
      match literalWord names t w with
      | some literal => literal
      | none =>
        let c ← expression names typed w
        modify fun cursor => { cursor with expressions := (t, c) :: cursor.expressions }
        return c
    | _ => failure

def constant (names : Names) (t : Ty) : Reader Const := do
  constantWithin names (← budget) t

def typedConstant (names : Names) : Reader (Ty × Const) := do
  let t ← type
  return (t, ← constant names t)

/-- What an alias stands for, with a type that has its address space: a constant behind its type, or
one of the expressions that give an address. -/
def aliasTarget (names : Names) : Reader (Ty × Const) := do
  match ← peek with
  | some (.word "getelementptr") => skip; gepExpression (typedConstant names)
  | some (.word op) =>
    if ["bitcast", "addrspacecast", "inttoptr"].contains op then
      skip
      match ← expression names (typedConstant names) op with
      | .cast kind c t => return (t, .cast kind c t)
      | _ => failure
    else typedConstant names
  | _ => typedConstant names

def path : Reader (List Nat) := do
  numbersBehindCommas (← budget)

end Reader
end CallTargets.IR
