import LintRunner.Toml.Basic

/-!
Dates and times in TOML. Each reader returns what follows; what has the form of a date but names no
day of the calendar is malformed.
-/

namespace LintRunner.Toml

def readDigits : Nat → List Char → Option (Nat × List Char)
  | 0, cs => some (0, cs)
  | _ + 1, [] => none
  | n + 1, c :: rest =>
    if c.isDigit then
      (readDigits n rest).map fun (m, rest) => ((c.toNat - 48) * 10 ^ n + m, rest)
    else none

def readPair (lo hi : Nat) (cs : List Char) : Option (Nat × List Char) := do
  let (n, rest) ← readDigits 2 cs
  if lo ≤ n ∧ n ≤ hi then return (n, rest) else none

def readChar (isWanted : Char → Bool) : List Char → Option (List Char)
  | c :: rest => if isWanted c then some rest else none
  | [] => none

def skipFraction : List Char → List Char
  | '.' :: d :: rest => if d.isDigit then rest.dropWhile Char.isDigit else '.' :: d :: rest
  | cs => cs

def readClock (cs : List Char) : Option (List Char) := do
  let (_, rest) ← readPair 0 23 cs
  let (_, rest) ← readPair 0 59 (← readChar (· = ':') rest)
  let (_, rest) ← readPair 0 59 (← readChar (· = ':') rest)
  return skipFraction rest

def readOffset (cs : List Char) : Option (List Char) := do
  match readChar (fun c => c = 'Z' || c = 'z') cs with
  | some rest => return rest
  | none =>
    let (_, rest) ← readPair 0 23 (← readChar (fun c => c = '+' || c = '-') cs)
    let (_, rest) ← readPair 0 59 (← readChar (· = ':') rest)
    return rest

def isLeap (year : Nat) : Bool := year % 4 = 0 && (year % 100 ≠ 0 || year % 400 = 0)

def daysIn (year month : Nat) : Nat :=
  if month = 2 then if isLeap year then 29 else 28
  else if [4, 6, 9, 11].contains month then 30
  else 31

/-- A date: whether there is such a day, and what follows. -/
def readDate (cs : List Char) : Option (Bool × List Char) := do
  let (year, rest) ← readDigits 4 cs
  let (month, rest) ← readPair 1 12 (← readChar (· = '-') rest)
  let (day, rest) ← readPair 1 31 (← readChar (· = '-') rest)
  return (1 ≤ year ∧ day ≤ daysIn year month, rest)

def skipTime (cs : List Char) : List Char :=
  match (readChar (fun c => c = 'T' || c = 't' || c = ' ') cs).bind readClock with
  | none => cs
  | some rest => (readOffset rest).getD rest

def readMoment? (cs : List Char) : Option (Except Fault (List Char)) :=
  match readDate cs with
  | some (exists_, rest) => some (if exists_ then .ok (skipTime rest) else .error .malformed)
  | none => (readClock cs).map .ok

end LintRunner.Toml
