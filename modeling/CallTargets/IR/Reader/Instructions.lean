import CallTargets.IR.Reader.Metadata

/-!
# Reading instructions

Each instruction is read with the type of its result, which follows from the types written for its
operands, whatever types the operands have; terminators end a block. Whatever an operand names has
to exist, also where the operand itself is not kept.
-/
namespace CallTargets.IR.Reader

/-- An instruction with the name of its result. -/
structure NamedInst where
  result : Option Ident
  inst : Inst
deriving Inhabited

/-- A block as it is written. `termType` is the type of what the terminator defines. -/
structure WrittenBlock where
  label : Option Ident
  insts : List NamedInst
  termResult : Option Ident
  termType : Ty
  term : Terminator
deriving Inhabited

def value (names : Names) (t : Ty) : Reader Value := do
  match names.defs.expand t with
  | .metadata => metadataOperand names; return .untracked t
  | _ =>
    match ← peek with
    | some (.loc i) =>
      skip
      match names.loc i with
      | some v => return v
      | none => failure
    | _ => return .const (← constant names t)

def typedValue (names : Names) : Reader (Ty × Value) := do
  let t ← type
  return (t, ← value names t)

private def target (names : Names) : Reader Unit := do
  match ← next with
  | .loc i => unless names.block i do failure
  | _ => failure

private def labelTarget (names : Names) : Reader Unit := do
  expectWord "label"
  target names

private def behindComma {α : Type} (item : Reader α) : Reader α := do
  expectSym ','
  item

/-- A comma that is not followed by an attachment. -/
private def acceptOperandComma : Reader Bool := do
  match ← peek, ← peekSecond with
  | some (.sym ','), some (.metaName _) => return false
  | some (.sym ','), _ => skip; return true
  | _, _ => return false

private def alignment : Reader Unit := do
  expectWord "align"
  let _ ← number

private def optionalAlignment : Reader Unit := do
  match ← peek, ← peekSecond with
  | some (.sym ','), some (.word "align") => skip; alignment
  | _, _ => return

private def orderings : List String :=
  ["unordered", "monotonic", "acquire", "release", "acq_rel", "seq_cst"]

private def syncScope : Reader Unit := do
  if ← acceptWord "syncscope" then
    expectSym '('
    let _ ← quotedText
    expectSym ')'

private def ordering : Reader Unit := do
  match ← next with
  | .word w => unless orderings.contains w do failure
  | _ => failure

/-- What begins a load or store: whether it is atomic, and so has an ordering. -/
private def memoryAccess : Reader Bool := do
  let atomic ← acceptWord "atomic"
  let _ ← acceptWord "volatile"
  return atomic

private def accessOrdering (atomic : Bool) : Reader Unit := do
  if atomic then
    syncScope
    ordering

/-- Words that may stand behind the parameter list of a function or the arguments of a call. -/
def functionAttributes : List String :=
  ["alwaysinline", "allocsize", "argmemonly", "builtin", "cold", "convergent",
   "disable_sanitizer_instrumentation", "hot", "inaccessiblememonly",
   "inaccessiblemem_or_argmemonly", "inlinehint", "jumptable", "memory", "minsize", "mustprogress",
   "naked", "nobuiltin", "nocallback", "nocf_check", "noduplicate", "nofree", "noimplicitfloat",
   "noinline", "nomerge", "nonlazybind", "noprofile", "norecurse", "noredzone", "noreturn",
   "nosanitize_coverage", "nosync", "nounwind", "null_pointer_is_valid", "optforfuzzing",
   "optnone", "optsize", "readnone", "readonly", "returns_twice", "safestack", "sanitize_address",
   "sanitize_hwaddress", "sanitize_memory", "sanitize_memtag", "sanitize_thread",
   "shadowcallstack", "speculatable", "speculative_load_hardening", "ssp", "sspreq", "sspstrong",
   "strictfp", "uwtable", "vscale_range", "willreturn", "writeonly", "alignstack", "align"]

private def functionAttribute : Reader (Option Unit) := do
  match ← peek with
  | some (.word w) =>
    if functionAttributes.contains w then
      skip
      if ← acceptSym '=' then let _ ← number
      else attributeArgument w
      return some ()
    else return none
  | some (.attrGroup _) => skip; return some ()
  | some (.str _) =>
    skip
    if ← acceptSym '=' then let _ ← quotedText
    return some ()
  | _ => return none

def skipFunctionAttributes : Reader Unit := do
  let _ ← manyWhile functionAttribute

private def argument (names : Names) : Reader (Ty × Value) := do
  let t ← type
  skipParameterAttributes
  return (t, ← value names t)

private def inlineAsm : Reader Unit := do
  skipWords ["sideeffect", "alignstack", "inteldialect", "unwind"]
  let _ ← quotedText
  expectSym ','
  let _ ← quotedText

/-- A callee. What type an expression should have is known only after the arguments. -/
private def calleeValue (names : Names) (callee : Ty) : Reader Value := do
  match ← peek with
  | some (.word "asm") => skip; inlineAsm; return .asm callee
  | _ =>
    match ← value names callee with
    | .const c =>
      if c.isExpression then modify fun cursor => { cursor with
        expressions := cursor.expressions.tail }
      return .const c
    | v => return v

/-- Operands of a call that are no arguments, under the name of their use. -/
private def bundle (names : Names) : Reader Unit := do
  let _ ← quotedText
  expectSym '('
  let _ ← listUntil ')' (typedValue names)

/-- What is called, with its arguments, up to the attributes behind them. A callee without a type of
its own is a pointer to the type written, even when that is the type of the result only. -/
private def callParts (names : Names) : Reader Call := do
  skipBeforeType
  let _ ← addressSpace
  let written ← type
  let callee ← calleeValue names (.ptr 0 written)
  expectSym '('
  let (arguments, _) ← parameters (argument names)
  let (result, signature) := match names.defs.expand written with
    | .func r _ _ => (r, written)
    | _ => (written, .func written (arguments.map Prod.fst) false)
  match callee with
  | .const c =>
    if c.isExpression then modify fun cursor => { cursor with
      expressions := (.ptr 0 signature, c) :: cursor.expressions }
  | _ => pure ()
  skipFunctionAttributes
  if ← acceptSym '[' then
    let _ ← separated (bundle names)
    expectSym ']'
  return ⟨some callee, some result, arguments.map Prod.snd⟩

private def incoming (names : Names) (t : Ty) : Reader Value := do
  expectSym '['
  let v ← value names t
  expectSym ','
  target names
  expectSym ']'
  return v

private def incomings (names : Names) (t : Ty) : Nat → Reader (List Value)
  | 0 => failure
  | n + 1 => do
    let v ← incoming names t
    if ← acceptOperandComma then return v :: (← incomings names t n) else return [v]

private def gepIndex (names : Names) (t : Ty) : Value → Reader GepIndex
  | .const c =>
    match c.gepIndex? with
    | some i => pure i
    | none => failure
  | _ => pure ⟨none, names.defs.lanes? t⟩

private def gepIndices (names : Names) : Nat → Reader (List (Value × GepIndex))
  | 0 => failure
  | n + 1 => do
    if ← acceptOperandComma then
      let (t, v) ← typedValue names
      let i ← gepIndex names t v
      return (v, i) :: (← gepIndices names n)
    else return []

private def elementPath : Nat → Reader (List Nat)
  | 0 => failure
  | n + 1 => do
    if ← acceptOperandComma then
      let i ← number
      return i :: (← elementPath n)
    else return []

private def clause (names : Names) : Reader (Option Value) := do
  if (← acceptWord "catch") || (← acceptWord "filter") then return some (← typedValue names).2
  else return none

/-- The number of elements, if it is given, and what is said about their place. -/
private def allocaParts (names : Names) : Reader (Option Value) := do
  let count ← match ← peek, ← peekSecond with
    | some (.sym ','), some t =>
      if startsType t then
        skip
        pure (some (← typedValue names).2)
      else pure none
    | _, _ => pure none
  optionalAlignment
  match ← peek, ← peekSecond with
  | some (.sym ','), some (.word "addrspace") =>
    skip
    let _ ← addressSpace
  | _, _ => pure ()
  return count

/-- The type that follows from the one written for the first operand; there has to be one. -/
private def typed (names : Names) (t : Ty) (rule : Typing) : Reader Ty :=
  match names.defs.typing? t rule with
  | some u => pure u
  | none => failure

private def atomicOperators : List String :=
  ["add", "and", "fadd", "fsub", "max", "min", "nand", "or", "sub", "umax", "umin", "xchg", "xor"]

private def padArguments (names : Names) : Reader (List Value) := do
  expectSym '['
  return (← listUntil ']' (typedValue names)).map Prod.snd

private def parentPad (names : Names) : Reader Unit := do
  match ← next with
  | .loc i => unless (names.loc i).isSome do failure
  | _ => failure

private def funcletParent (names : Names) : Reader Unit := do
  expectWord "within"
  unless ← acceptWord "none" do parentPad names

/-- An instruction behind its operator, with the type of its result. -/
private def operation (names : Names) (op : String) : Reader (Op × Ty) := do
  if binaryOperators.contains op then
    skipOperatorFlags op
    let (t, x) ← typedValue names
    let y ← behindComma (value names t)
    return (.other [x, y], t)
  else if let some kind := cast? op then
    let (_, x) ← typedValue names
    expectWord "to"
    let t ← type
    return (.cast kind x t, t)
  else match op with
    | "call" =>
      skipWords fastFlags
      let c ← callParts names
      return (.call c, c.result.getD .void)
    | "tail" | "musttail" | "notail" =>
      expectWord "call"
      skipWords fastFlags
      let c ← callParts names
      return (.call c, c.result.getD .void)
    | "store" =>
      let atomic ← memoryAccess
      let (_, src) ← typedValue names
      let (_, dst) ← behindComma (typedValue names)
      accessOrdering atomic
      optionalAlignment
      return (.store src dst, .void)
    | "load" =>
      let atomic ← memoryAccess
      let t ← type
      let (_, src) ← behindComma (typedValue names)
      accessOrdering atomic
      optionalAlignment
      return (.load t src, t)
    | "alloca" =>
      let _ ← acceptWord "inalloca"
      let _ ← acceptWord "swifterror"
      let t ← type
      return (.alloca t (← allocaParts names), .ptr 0 t)
    | "getelementptr" =>
      let _ ← acceptWord "inbounds"
      let elem ← type
      let (srcType, src) ← behindComma (typedValue names)
      let indices ← gepIndices names (← budget)
      return (.gep elem src (indices.map Prod.fst),
        names.defs.gepType elem srcType (indices.map Prod.snd))
    | "fneg" =>
      skipWords fastFlags
      let (t, x) ← typedValue names
      return (.other [x], t)
    | "icmp" | "fcmp" =>
      if op = "fcmp" then skipWords fastFlags
      predicate op
      let (t, x) ← typedValue names
      let y ← behindComma (value names t)
      return (.other [x, y], ← typed names t .comparison)
    | "select" =>
      skipWords fastFlags
      let (_, c) ← typedValue names
      let (t, x) ← behindComma (typedValue names)
      let (_, y) ← behindComma (typedValue names)
      return (.other [c, x, y], t)
    | "freeze" =>
      let (t, x) ← typedValue names
      return (.other [x], t)
    | "phi" =>
      skipWords fastFlags
      let t ← type
      return (.other (← incomings names t (← budget)), t)
    | "fence" =>
      syncScope
      ordering
      return (.other [], .void)
    | "cmpxchg" =>
      let _ ← acceptWord "weak"
      let _ ← acceptWord "volatile"
      let (_, p) ← typedValue names
      let (_, x) ← behindComma (typedValue names)
      let (t, y) ← behindComma (typedValue names)
      syncScope
      ordering
      ordering
      optionalAlignment
      let id ← freshStruct
      return (.other [p, x, y], .struct (.literal id) false [t, .int 8])
    | "atomicrmw" =>
      let _ ← acceptWord "volatile"
      match ← next with
      | .word w => unless atomicOperators.contains w do failure
      | _ => failure
      let (t, p) ← typedValue names
      let (_, x) ← behindComma (typedValue names)
      syncScope
      ordering
      optionalAlignment
      match names.defs.expand t with
      | .ptr _ e => return (.other [p, x], e)
      | _ => failure
    | "extractvalue" =>
      let (t, x) ← typedValue names
      let path ← elementPath (← budget)
      return (.other [x], ← typed names t (.member path))
    | "insertvalue" =>
      let (t, x) ← typedValue names
      let (_, e) ← behindComma (typedValue names)
      let _ ← elementPath (← budget)
      return (.other [x, e], t)
    | "extractelement" =>
      let (t, x) ← typedValue names
      let (_, i) ← behindComma (typedValue names)
      return (.other [x, i], ← typed names t .lane)
    | "insertelement" =>
      let (t, x) ← typedValue names
      let (_, e) ← behindComma (typedValue names)
      let (_, i) ← behindComma (typedValue names)
      let _ ← typed names t .lane
      return (.other [x, e, i], t)
    | "shufflevector" =>
      let (t, x) ← typedValue names
      let (_, y) ← behindComma (typedValue names)
      let (mask, z) ← behindComma (typedValue names)
      match names.defs.lanes? mask with
      | some count => return (.other [x, y, z], ← typed names t (.lanes count))
      | none => failure
    | "va_arg" =>
      let (_, x) ← typedValue names
      let t ← behindComma type
      return (.other [x], t)
    | "landingpad" =>
      let t ← type
      let _ ← acceptWord "cleanup"
      return (.other (← manyWhile (clause names)), t)
    | "catchpad" =>
      expectWord "within"
      parentPad names
      return (.other (← padArguments names), .token)
    | "cleanuppad" =>
      funcletParent names
      return (.other (← padArguments names), .token)
    | _ => failure

private def switchCase (names : Names) : Reader (Option Unit) := do
  match ← peek with
  | some (.sym ']') => return none
  | _ =>
    let _ ← typedConstant names
    expectSym ','
    labelTarget names
    return some ()

private def unwindTarget (names : Names) : Reader Unit := do
  expectWord "unwind"
  if ← acceptWord "to" then expectWord "caller" else labelTarget names

/-- A terminator behind its operator, with the type of what it defines; nothing when the operator
is none of a terminator. -/
private def terminator (names : Names) (op : String) : Option (Reader (Terminator × Ty)) :=
  match op with
  | "ret" => some do
    let t ← type
    match names.defs.expand t with
    | .void => return (.ret none, .void)
    | _ => return (.ret (some (← value names t)), .void)
  | "br" => some do
    if (← peek) = some (.word "label") then labelTarget names
    else
      match ← type with
      | .int n => let _ ← value names (.int n)
      | _ => failure
      behindComma (labelTarget names)
      behindComma (labelTarget names)
    return (.other, .void)
  | "switch" => some do
    let _ ← typedValue names
    behindComma (labelTarget names)
    expectSym '['
    let _ ← manyWhile (switchCase names)
    expectSym ']'
    return (.other, .void)
  | "indirectbr" => some do
    let _ ← typedValue names
    expectSym ','
    expectSym '['
    let _ ← listUntil ']' (labelTarget names)
    return (.other, .void)
  | "invoke" => some do
    let c ← callParts names
    expectWord "to"
    labelTarget names
    expectWord "unwind"
    labelTarget names
    return (.invoke c.args, c.result.getD .void)
  | "callbr" => some do
    let c ← callParts names
    expectWord "to"
    labelTarget names
    expectSym '['
    let _ ← listUntil ']' (labelTarget names)
    return (.other, c.result.getD .void)
  | "resume" => some do
    let _ ← typedValue names
    return (.other, .void)
  | "catchswitch" => some do
    funcletParent names
    expectSym '['
    let _ ← listUntil ']' (labelTarget names)
    unwindTarget names
    return (.other, .token)
  | "catchret" => some do
    expectWord "from"
    let _ ← value names .token
    expectWord "to"
    labelTarget names
    return (.other, .void)
  | "cleanupret" => some do
    expectWord "from"
    let _ ← value names .token
    unwindTarget names
    return (.other, .void)
  | "unreachable" => some (pure (.other, .void))
  | _ => none

private def resultName : Reader (Option Ident) := do
  match ← peek with
  | some (.loc i) => skip; expectSym '='; return some i
  | _ => return none

/-- The operators of instructions that define nothing and so cannot have a name. -/
private def namelessOperators : List String :=
  ["store", "fence", "ret", "br", "switch", "indirectbr", "resume", "catchret", "cleanupret",
   "unreachable"]

private def blockWithin (names : Names) (nodes : MetadataNodes) :
    Nat → Option Ident → List NamedInst → Reader WrittenBlock
  | 0, _, _ => failure
  | n + 1, label, insts => do
    let result ← resultName
    match ← next with
    | .word op =>
      if result.isSome && namelessOperators.contains op then failure
      match terminator names op with
      | some rest =>
        let (term, t) ← rest
        let _ ← trailingAttachments names nodes
        return ⟨label, insts.reverse, result, t, term⟩
      | none =>
        let (o, t) ← operation names op
        let as ← trailingAttachments names nodes
        blockWithin names nodes n label (⟨result, ⟨o, t, as⟩⟩ :: insts)
    | _ => failure

private def block (names : Names) (nodes : MetadataNodes) : Reader WrittenBlock := do
  let label ← match ← peek with
    | some (.label i) => skip; pure (some i)
    | _ => pure none
  blockWithin names nodes (← budget) label []

/-- An order of uses: numbers between braces behind a comma. -/
def useOrder : Reader Unit := do
  expectSym ','
  expectSym '{'
  let _ ← listUntil '}' number

def blockOrder (names : Names) : Reader Unit := do
  match ← next with
  | .global f =>
    expectSym ','
    match names.symbol f, ← next with
    | some (.func _), .loc b =>
      modify fun c => { c with blockAddresses := (f, b) :: c.blockAddresses }
      useOrder
    | _, _ => failure
  | _ => failure

/-- Orders of the uses of values, which do not matter here. -/
def useOrders (names : Names) : Reader (List Unit) :=
  manyWhile do
    if ← acceptWord "uselistorder" then
      let _ ← typedValue names
      useOrder
      return some ()
    else return none

private def blocksWithin (names : Names) (nodes : MetadataNodes) : Nat → Reader (List WrittenBlock)
  | 0 => failure
  | n + 1 => do
    let b ← block names nodes
    let orders ← useOrders names
    if ← acceptSym '}' then return [b]
    else if orders.isEmpty then return b :: (← blocksWithin names nodes n)
    else failure

/-- The blocks of a body up to the brace that closes it; there is at least one. -/
def body (names : Names) (nodes : MetadataNodes) : Reader (List WrittenBlock) := do
  blocksWithin names nodes (← budget)

end CallTargets.IR.Reader
