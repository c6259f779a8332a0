/-!
# Dates

A date is a year of four digits, a month and a day; a time of day may follow. Apart from the year,
numbers have one or two digits.
-/
namespace CallTargets.Document

/-- A number of one or two digits at the front of a text, if it is at most `most`. -/
private def shortNumber? (most : Nat) : List Char → Option (Nat × List Char)
  | [] => none
  | c :: rest =>
    if c.isDigit then
      let n := c.toNat - '0'.toNat
      let (n, rest) := match rest with
        | d :: more => if d.isDigit then (10 * n + (d.toNat - '0'.toNat), more) else (n, rest)
        | [] => (n, rest)
      if n ≤ most then some (n, rest) else none
    else none

private def expect? (c : Char) : List Char → Option (List Char)
  | d :: rest => if c = d then some rest else none
  | [] => none

def isLeapYear (year : Nat) : Bool :=
  year % 4 == 0 && (year % 100 != 0 || year % 400 == 0)

def daysInMonth (year month : Nat) : Nat :=
  if month = 2 then (if isLeapYear year then 29 else 28)
  else if month = 4 ∨ month = 6 ∨ month = 9 ∨ month = 11 then 30
  else 31

/-- A fraction of a second, if there is one. -/
private def skipFraction : List Char → List Char
  | c :: d :: rest =>
    if (c == '.' || c == ',') && d.isDigit then rest.dropWhile Char.isDigit else c :: d :: rest
  | cs => cs

private def time? (cs : List Char) : Option (List Char) := do
  let (_, cs) ← shortNumber? 23 cs
  let (_, cs) ← expect? ':' cs >>= shortNumber? 59
  let (_, cs) ← expect? ':' cs >>= shortNumber? 59
  return skipFraction cs

/-- A time zone: `Z`, or a sign with hours and minutes of two digits. -/
private def zone? : List Char → Option (List Char)
  | 'Z' :: rest => some rest
  | sign :: a :: b :: ':' :: c :: d :: rest => do
    guard (sign == '+' || sign == '-')
    guard ([a, b, c, d].all Char.isDigit)
    let _ ← shortNumber? 24 [a, b]
    let _ ← shortNumber? 60 [c, d]
    return rest
  | _ => none

/-- Whether a text is a date, alone or with a time of day. A blank before the time leaves no room
for a time zone, a letter asks for one. -/
def isTimestamp (cs : List Char) : Bool :=
  let year := cs.takeWhile Char.isDigit
  let date : Option (List Char) := do
    guard (year.length == 4)
    let (month, rest) ← expect? '-' (cs.drop 4) >>= shortNumber? 12
    let (day, rest) ← expect? '-' rest >>= shortNumber? 31
    let y := year.foldl (fun n c => 10 * n + (c.toNat - '0'.toNat)) 0
    guard (1 ≤ month && 1 ≤ day && day ≤ daysInMonth y month)
    return rest
  match date with
  | none => false
  | some [] => true
  | some (c :: rest) =>
    if c = 'T' ∨ c = 't' then (time? rest >>= zone?) == some []
    else if c = ' ' then time? (rest.dropWhile (· == ' ')) == some []
    else false

end CallTargets.Document
