import CallTargets.IR.Reader.Cursor

/-!
# Reading types

A type is a first part followed by stars, address spaces and parameter lists. Named types are kept
by name; a name that the text defines nowhere is refused.
-/
namespace CallTargets.IR.Reader

/-- Words that may stand behind the type of a parameter or argument. -/
def parameterAttributes : List String :=
  ["zeroext", "signext", "inreg", "byval", "byref", "preallocated", "inalloca", "sret",
   "elementtype", "align", "noalias", "nocapture", "nofree", "nest", "returned", "nonnull",
   "dereferenceable", "dereferenceable_or_null", "swiftself", "swiftasync", "swifterror", "immarg",
   "noundef", "alignstack", "allocalign", "allocptr", "readnone", "readonly", "writeonly"]

/-- Words that may stand before the type of a result. -/
def resultAttributes : List String :=
  ["align", "dereferenceable", "dereferenceable_or_null", "inreg", "noalias", "nonnull", "noundef",
   "signext", "zeroext"]

/-- An argument of an attribute: a number behind `align`, or anything between brackets. -/
def attributeArgument (w : String) : Reader Unit := do
  if ← acceptSym '(' then skipBalanced
  else if w = "align" ∨ w = "alignstack" then let _ ← number

/-- Consumes attributes: words of `ws` with their arguments, and texts with or without a value. -/
def skipAttributes (ws : List String) : Reader Unit := do
  let _ ← manyWhile do
    match ← peek with
    | some (.word w) =>
      if ws.contains w then
        skip
        attributeArgument w
        return some ()
      else return none
    | some (.str _) =>
      skip
      if ← acceptSym '=' then let _ ← quotedText
      return some ()
    | _ => return none

def skipParameterAttributes : Reader Unit := skipAttributes parameterAttributes

/-- Consumes the calling convention and the result attributes in front of a type. -/
def skipBeforeType : Reader Unit := do
  match ← oneOf conventionKeywords with
  | some "cc" => let _ ← number
  | _ => pure ()
  skipAttributes resultAttributes

private def wordTy (w : String) : Option Ty :=
  match w with
  | "void" => some .void
  | "label" => some .label
  | "token" => some .token
  | "metadata" => some .metadata
  | "x86_mmx" => some .mmx
  | "half" => some (.float .half)
  | "float" => some (.float .single)
  | "double" => some (.float .double)
  | "x86_fp80" => some (.float .x86fp80)
  | "fp128" => some (.float .fp128)
  | "ppc_fp128" => some (.float .ppcfp128)
  | _ =>
    match w.toList with
    | 'i' :: ds =>
      ((Text.readNat? ds).filter (· < UInt64.size)).map fun n => .int n.toUInt64
    | _ => none

def startsType : Token → Bool
  | .word w => (wordTy w).isSome
  | .loc _ => true
  | .sym c => c == '{' || c == '[' || c == '<'
  | _ => false

private def length : Reader UInt64 := do
  let n ← number
  unless n < UInt64.size do failure
  return n.toUInt64

private def parametersWithin {α : Type} (item : Reader α) : Nat → Reader (List α × Bool)
  | 0 => failure
  | n + 1 => do
    if ← accept .ellipsis then
      expectSym ')'
      return ([], true)
    let a ← item
    if ← acceptSym ',' then
      let (rest, variadic) ← parametersWithin item n
      return (a :: rest, variadic)
    else
      expectSym ')'
      return ([a], false)

/-- A parameter list behind its opening bracket, and whether it ends in an ellipsis. -/
def parameters {α : Type} (item : Reader α) : Reader (List α × Bool) := do
  if ← acceptSym ')' then return ([], false)
  parametersWithin item (← budget)

private def suffixed (element : Reader Ty) : Nat → Ty → Reader Ty
  | 0, _ => failure
  | n + 1, t => do
    match ← peek with
    | some (.sym '*') => skip; suffixed element n (.ptr 0 t)
    | some (.word "addrspace") =>
      let space ← addressSpace
      expectSym '*'
      suffixed element n (.ptr space t)
    | some (.sym '(') =>
      skip
      let (params, variadic) ← parameters do
        let p ← element
        skipParameterAttributes
        match ← peek with
        | some (.loc _) => skip
        | _ => pure ()
        return p
      suffixed element n (.func t params variadic)
    | _ => return t

private def typeWithin : Nat → Reader Ty
  | 0 => failure
  | n + 1 => do
    let head ← match ← next with
      | .word w => match wordTy w with
        | some t => pure t
        | none => failure
      | .loc i =>
        unless (← get).isType i.name do failure
        pure (.named i.name)
      | .sym '{' =>
        let id ← freshStruct
        pure (.struct (.literal id) false (← listUntil '}' (typeWithin n)))
      | .sym '[' =>
        let len ← length
        expectWord "x"
        let elem ← typeWithin n
        expectSym ']'
        pure (.array len elem)
      | .sym '<' =>
        if ← acceptSym '{' then
          let id ← freshStruct
          let fields ← listUntil '}' (typeWithin n)
          expectSym '>'
          pure (.struct (.literal id) true fields)
        else
          let scalable ← acceptWord "vscale"
          if scalable then expectWord "x"
          let len ← length
          expectWord "x"
          let elem ← typeWithin n
          expectSym '>'
          pure (.vector scalable len elem)
      | _ => failure
    suffixed (typeWithin n) (n + 1) head

def type : Reader Ty := do typeWithin (← budget)

end CallTargets.IR.Reader
