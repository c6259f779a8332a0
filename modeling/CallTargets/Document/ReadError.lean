/-!
# Errors of reading documents

An error names the line at which reading went wrong, unless that is the first one. Errors between
tokens count lines from zero.
-/
namespace CallTargets.Document

/-- A place in a text: how many characters are before it, its line and its column, counted from
zero. -/
structure Mark where
  index : Nat
  line : Nat
  column : Nat
deriving DecidableEq, Repr, Inhabited

inductive Fault where
  | leadingOctet
  | missingOctets
  | trailingOctet
  | octetLength
  | invalidCharacter
  | halfUnit
  | lowSurrogate
  | halfPair
  | noLowSurrogate
  | controlCharacter
  | tokenStart
  | noColon
  | entryPlace
  | keyPlace
  | valuePlace
  | documentMark
  | openQuote
  | unknownEscape
  | escapeDigits
  | escapeCode
  | tabIndent
  | zeroIndent
  | blockTab
  | noLineEnd
  | anchorName
  | tagBracket
  | tagMark
  | tagText
  | tagOctet
  | tagEnd
  | directiveName
  | directiveEnd
  | unknownDirective
  | versionPoint
  | versionNumber
  | longVersion
  | shorthandGap
  | repeatedVersion
  | otherVersion
  | repeatedShorthand
  | documentStart
  | unknownHandle
  | noContent
  | noDash
  | noKey
  | noComma
  | noFlowComma
  | unknownAnchor (name : String)
deriving DecidableEq, Repr, Inhabited

def Fault.text : Fault → String
  | .leadingOctet => "invalid leading UTF-8 octet"
  | .missingOctets => "incomplete UTF-8 octet sequence"
  | .trailingOctet => "invalid trailing UTF-8 octet"
  | .octetLength => "invalid length of a UTF-8 sequence"
  | .invalidCharacter => "invalid Unicode character"
  | .halfUnit => "incomplete UTF-16 character"
  | .lowSurrogate => "unexpected low surrogate area"
  | .halfPair => "incomplete UTF-16 surrogate pair"
  | .noLowSurrogate => "expected low surrogate area"
  | .controlCharacter => "control characters are not allowed"
  | .tokenStart => "found character that cannot start any token"
  | .noColon => "could not find expected ':'"
  | .entryPlace => "block sequence entries are not allowed in this context"
  | .keyPlace => "mapping keys are not allowed in this context"
  | .valuePlace => "mapping values are not allowed in this context"
  | .documentMark => "found unexpected document indicator"
  | .openQuote => "found unexpected end of stream"
  | .unknownEscape => "found unknown escape character"
  | .escapeDigits => "did not find expected hexdecimal number"
  | .escapeCode => "found invalid Unicode character escape code"
  | .tabIndent => "found a tab character that violates indentation"
  | .zeroIndent => "found an indentation indicator equal to 0"
  | .blockTab => "found a tab character where an indentation space is expected"
  | .noLineEnd => "did not find expected comment or line break"
  | .anchorName => "did not find expected alphabetic or numeric character"
  | .tagBracket => "did not find the expected '>'"
  | .tagMark => "did not find expected '!'"
  | .tagText => "did not find expected tag URI"
  | .tagOctet => "did not find URI escaped octet"
  | .tagEnd => "did not find expected whitespace or line break"
  | .directiveName => "could not find expected directive name"
  | .directiveEnd => "found unexpected non-alphabetical character"
  | .unknownDirective => "found unknown directive name"
  | .versionPoint => "did not find expected digit or '.' character"
  | .versionNumber => "did not find expected version number"
  | .longVersion => "found extremely long version number"
  | .shorthandGap => "did not find expected whitespace"
  | .repeatedVersion => "found duplicate %YAML directive"
  | .otherVersion => "found incompatible YAML document"
  | .repeatedShorthand => "found duplicate %TAG directive"
  | .documentStart => "did not find expected <document start>"
  | .unknownHandle => "found undefined tag handle"
  | .noContent => "did not find expected node content"
  | .noDash => "did not find expected '-' indicator"
  | .noKey => "did not find expected key"
  | .noComma => "did not find expected ',' or ']'"
  | .noFlowComma => "did not find expected ',' or '\x7d'"
  | .unknownAnchor name => "unknown anchor '" ++ name ++ "' referenced"

structure ReadError where
  line : Option Nat
  fault : Fault
deriving DecidableEq, Repr, Inhabited

namespace ReadError

def message (e : ReadError) : String :=
  "yaml: " ++ (match e.line with
    | some n => "line " ++ toString n ++ ": "
    | none => "") ++ e.fault.text

/-- An error inside a token, met at `here` while reading what begins at `start`. -/
def inToken (start here : Mark) (fault : Fault) : ReadError :=
  let line := if start.line ≠ 0 then start.line else here.line
  ⟨if line = 0 then none else some (line + 1), fault⟩

/-- An error between tokens, met at `here` while reading what begins at `start`. -/
def betweenTokens (start here : Mark) (fault : Fault) : ReadError :=
  let line := if start.line ≠ 0 then start.line else here.line
  ⟨if line = 0 then none else some line, fault⟩

end ReadError
end CallTargets.Document
