import CallTargets.Command.Setting
import CallTargets.Text.Literal
import CallTargets.Text.Radix

/-!
# Arguments of the command

Flags and file names may be mixed. A long flag has its value behind an equals sign or in the next
argument; letters may be joined, and the last one may have its value directly behind it. A switch
takes a value only behind an equals sign. After `--` everything is a file name.
-/
namespace CallTargets.Command

inductive ValueError where
  | switch (text : String)
  | number (text : String) (cause : Text.NumberError)
deriving DecidableEq, Repr, Inhabited

def ValueError.message : ValueError → String
  | .switch text => "strconv.ParseBool: parsing " ++ Text.literal text ++ ": invalid syntax"
  | .number text cause => "strconv.ParseInt: parsing " ++ Text.literal text ++ ": " ++ cause.text

inductive ArgumentError where
  | malformed (argument : String)
  | unknown (name : String)
  | unknownShort (c : Char) (letters : String)
  | noValue (name : String)
  | noShortValue (c : Char) (letters : String)
  | invalid (setting : Setting) (text : String) (cause : ValueError)
deriving DecidableEq, Repr, Inhabited

/-- A flag with its letter, as messages name it. -/
def Setting.title (s : Setting) : String :=
  match s.flag.short with
  | some c => "-" ++ String.singleton c ++ ", --" ++ s.flag.name
  | none => "--" ++ s.flag.name

/-- How messages show a letter; all letters beyond ASCII look alike. -/
private def shownLetter (c : Char) : String :=
  Text.characterLiteral (if c.toNat < 0x80 then c else Char.ofNat 0xC3)

def ArgumentError.message : ArgumentError → String
  | .malformed argument => "bad flag syntax: " ++ argument
  | .unknown name => "unknown flag: --" ++ name
  | .unknownShort c letters =>
    "unknown shorthand flag: " ++ shownLetter c ++ " in -" ++ letters
  | .noValue name => "flag needs an argument: --" ++ name
  | .noShortValue c letters => "flag needs an argument: " ++ shownLetter c ++ " in -" ++ letters
  | .invalid setting text cause =>
    "invalid argument " ++ Text.literal text ++ " for " ++ Text.literal setting.title ++
      " flag: " ++ cause.message

def Setting.read (s : Setting) (text : String) : Except ArgumentError Value :=
  match s.flag.default with
  | .text _ => .ok (.text text)
  | .switch _ =>
    match Text.readBool? text with
    | some b => .ok (.switch b)
    | none => .error (.invalid s text (.switch text))
  | .number _ =>
    match Text.readSigned text.toList with
    | .ok n => .ok (.number n)
    | .error e => .error (.invalid s text (.number text e))

/-- The settings and file names given so far, the latter last first. -/
structure Arguments where
  values : Values
  files : List String
deriving DecidableEq, Repr, Inhabited

namespace Arguments

def set (a : Arguments) (s : Setting) (text : String) : Except ArgumentError Arguments :=
  (s.read text).map fun v => { a with values := a.values.put s v }

private def splitEquals (cs : List Char) : String × Option String :=
  let name := String.ofList (cs.takeWhile (· != '='))
  match cs.dropWhile (· != '=') with
  | _ :: value => (name, some (String.ofList value))
  | [] => (name, none)

/-- Reads a long flag, given without its dashes; the result holds the remaining arguments. -/
def readLong (a : Arguments) (body : List Char) (rest : List String) :
    Except ArgumentError (Arguments × List String) :=
  match body with
  | [] => .error (.malformed "--")
  | c :: _ =>
    if c = '-' ∨ c = '=' then .error (.malformed (String.ofList ('-' :: '-' :: body)))
    else
      let (name, value) := splitEquals body
      match Setting.ofName? name with
      | none => .error (.unknown name)
      | some s =>
        match value with
        | some text => (a.set s text).map (·, rest)
        | none =>
          if s.isSwitch then (a.set s "true").map (·, rest)
          else match rest with
            | text :: rest => (a.set s text).map (·, rest)
            | [] => .error (.noValue name)

def readLetters (rest : List String) :
    Arguments → List Char → Except ArgumentError (Arguments × List String)
  | a, [] => .ok (a, rest)
  | a, c :: cs =>
    let letters := String.ofList (c :: cs)
    if letters.startsWith "test." then .ok (a, rest)
    else match Setting.ofShort? c with
      | none => .error (.unknownShort c letters)
      | some s =>
        match cs with
        | '=' :: d :: more => (a.set s (String.ofList (d :: more))).map (·, rest)
        | _ =>
          if s.isSwitch then
            match a.set s "true" with
            | .ok a => readLetters rest a cs
            | .error e => .error e
          else if !cs.isEmpty then (a.set s (String.ofList cs)).map (·, rest)
          else match rest with
            | text :: rest => (a.set s text).map (·, rest)
            | [] => .error (.noShortValue c letters)

/-- Reads arguments, `fuel` of them at most. -/
def readFrom : Nat → Arguments → List String → Except ArgumentError Arguments
  | 0, a, _ => .ok a
  | _ + 1, a, [] => .ok a
  | fuel + 1, a, arg :: rest =>
    match arg.toList with
    | '-' :: '-' :: body =>
      if body.isEmpty then .ok { a with files := rest.reverse ++ a.files }
      else match a.readLong body rest with
        | .ok (a, rest) => readFrom fuel a rest
        | .error e => .error e
    | '-' :: c :: cs =>
      match readLetters rest a (c :: cs) with
      | .ok (a, rest) => readFrom fuel a rest
      | .error e => .error e
    | _ => readFrom fuel { a with files := arg :: a.files } rest

def read (args : List String) : Except ArgumentError Arguments :=
  (readFrom args.length ⟨[], []⟩ args).map fun a => { a with files := a.files.reverse }

end Arguments
end CallTargets.Command
