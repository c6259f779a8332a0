import CallTargets.IR.Token
import CallTargets.IR.Value

/-!
# Reading tokens

A reader consumes tokens from the front and fails without a message. It also numbers the structs
that are written in place, each time one is read. Repetition and nesting are bounded by the number
of tokens of the whole text, which nothing written in it can exceed.
-/
namespace CallTargets.IR

/-- A reader's place in a text: the tokens ahead, a bound on nesting, the number of the next struct
written in place, and which type names the text defines. What can be judged only at the end of the
text is collected: the blocks whose address was taken, each with its function, and the expressions,
each with the type written for it. -/
structure Cursor where
  tokens : List Token
  bound : Nat
  nextStruct : Nat
  blockAddresses : List (Ident × Ident)
  expressions : List (Ty × Const)
  isType : ByteString → Bool

abbrev Reader := StateT Cursor Option

namespace Reader

def peek : Reader (Option Token) := do
  return (← get).tokens.head?

def peekSecond : Reader (Option Token) := do
  return (← get).tokens.tail.head?

def skip : Reader Unit :=
  modify fun c => { c with tokens := c.tokens.tail }

def next : Reader Token := do
  match (← get).tokens with
  | t :: ts => modify (fun c => { c with tokens := ts }); return t
  | [] => failure

def quotedText : Reader ByteString := do
  match ← next with
  | .str s => return s
  | _ => failure

def budget : Reader Nat := do
  return (← get).bound

def freshStruct : Reader Nat :=
  modifyGet fun c => (c.nextStruct, { c with nextStruct := c.nextStruct + 1 })

/-- Consumes the given token if it is next, and tells whether it was. -/
def accept (t : Token) : Reader Bool := do
  if (← peek) = some t then skip; return true
  else return false

def expect (t : Token) : Reader Unit := do
  unless ← accept t do failure

def acceptSym (c : Char) : Reader Bool := accept (.sym c)

def expectSym (c : Char) : Reader Unit := expect (.sym c)

def acceptWord (w : String) : Reader Bool := accept (.word w)

def expectWord (w : String) : Reader Unit := expect (.word w)

private def separatedWithin {α : Type} (item : Reader α) : Nat → Reader (List α)
  | 0 => failure
  | n + 1 => do
    let a ← item
    if ← acceptSym ',' then return a :: (← separatedWithin item n) else return [a]

def separated {α : Type} (item : Reader α) : Reader (List α) := do
  separatedWithin item (← budget)

/-- Items separated by commas up to a closing symbol, which is consumed. -/
def listUntil {α : Type} (close : Char) (item : Reader α) : Reader (List α) := do
  if ← acceptSym close then return []
  let items ← separated item
  expectSym close
  return items

private def manyWithin {α : Type} (item : Reader (Option α)) : Nat → Reader (List α)
  | 0 => failure
  | n + 1 => do
    match ← item with
    | some a => return a :: (← manyWithin item n)
    | none => return []

/-- Repeats an item as long as it says that it was there. -/
def manyWhile {α : Type} (item : Reader (Option α)) : Reader (List α) := do
  manyWithin item (← budget)

/-- Consumes words as long as they belong to `ws`. -/
def skipWords (ws : List String) : Reader Unit := do
  let _ ← manyWhile do
    match ← peek with
    | some (.word w) => if ws.contains w then skip; return some () else return none
    | _ => return none

/-- Consumes the next word if it belongs to `ws`, and tells which it was. -/
def oneOf (ws : List String) : Reader (Option String) := do
  match ← peek with
  | some (.word w) => if ws.contains w then skip; return some w else return none
  | _ => return none

private def skipBalancedWithin : Nat → Nat → Reader Unit
  | 0, _ => failure
  | fuel + 1, depth => do
    match ← next with
    | .sym c =>
      if c = '(' ∨ c = '{' ∨ c = '[' then skipBalancedWithin fuel (depth + 1)
      else if c = ')' ∨ c = '}' ∨ c = ']' then
        match depth with
        | 0 => return
        | d + 1 => skipBalancedWithin fuel d
      else skipBalancedWithin fuel depth
    | _ => skipBalancedWithin fuel depth

/-- Consumes what follows an opening bracket up to its partner. -/
def skipBalanced : Reader Unit := do
  skipBalancedWithin (← budget) 0

def number : Reader Nat := do
  match ← next with
  | .int (.ofNat n) => return n
  | _ => failure

/-- An optional `addrspace(n)`. -/
def addressSpace : Reader Nat := do
  if ← acceptWord "addrspace" then
    expectSym '('
    let n ← number
    expectSym ')'
    return n
  else return 0

end Reader
end CallTargets.IR
