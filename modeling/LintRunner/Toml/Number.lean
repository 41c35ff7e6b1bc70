import LintRunner.Number
import LintRunner.Toml.Quoted
import LintRunner.Value

/-!
Numbers in TOML. Single underscores may stand between digits. Whole numbers can also be written with
base sixteen, eight or two; all others are rounded to 64-bit floating point.
-/

namespace LintRunner.Toml

/-- Further digits behind a first one, without the underscores between them. -/
def moreDigits (isDigit : Char → Bool) : List Char → List Char × List Char
  | '_' :: d :: rest =>
    if isDigit d then
      let (ds, rest) := moreDigits isDigit rest
      (d :: ds, rest)
    else ([], '_' :: d :: rest)
  | c :: rest =>
    if isDigit c then
      let (ds, rest) := moreDigits isDigit rest
      (c :: ds, rest)
    else ([], c :: rest)
  | [] => ([], [])

def digits? (isDigit : Char → Bool) : List Char → Option (List Char × List Char)
  | c :: rest =>
    if isDigit c then
      let (ds, rest) := moreDigits isDigit rest
      some (c :: ds, rest)
    else none
  | [] => none

def valueOf (base : Nat) (digits : List Char) : Nat :=
  digits.foldl (fun n c => n * base + (hexValue? c).getD 0) 0

def isOctal (c : Char) : Bool := '0' ≤ c && c ≤ '7'

def isBinary (c : Char) : Bool := c = '0' || c = '1'

def readBased? : List Char → Option (Value × List Char)
  | '0' :: 'x' :: rest => based 16 (fun c => (hexValue? c).isSome) rest
  | '0' :: 'o' :: rest => based 8 isOctal rest
  | '0' :: 'b' :: rest => based 2 isBinary rest
  | _ => none
where
  based (base : Nat) (isDigit : Char → Bool) (rest : List Char) : Option (Value × List Char) :=
    (digits? isDigit rest).map fun (ds, rest) => (.int (valueOf base ds), rest)

/-- A plus or minus sign, if there is one: whether it is a minus sign, and what follows. -/
def readSign : List Char → Bool × List Char
  | '-' :: rest => (true, rest)
  | '+' :: rest => (false, rest)
  | cs => (false, cs)

/-- The digits before the point. A leading zero stands alone. -/
def wholePart? : List Char → Option (List Char × List Char)
  | '0' :: rest => some (['0'], rest)
  | cs => digits? Char.isDigit cs

/-- The point and the digits behind it, if both are there. -/
def fraction? : List Char → Option (List Char × List Char)
  | '.' :: rest => digits? Char.isDigit rest
  | _ => none

def exponent? : List Char → Option (Int × List Char)
  | c :: rest =>
    if c = 'e' ∨ c = 'E' then
      let (negative, rest) := readSign rest
      (digits? Char.isDigit rest).map fun (ds, rest) =>
        let n := valueOf 10 ds
        (if negative then -(n : Int) else n, rest)
    else none
  | [] => none

def wholeNumber (negative : Bool) (digits : List Char) : Except Fault Value :=
  if Number.mostDigits < digits.length then .error .integerTooLong
  else
    let n := valueOf 10 digits
    .ok (.int (if negative then -(n : Int) else n))

def floatingNumber (negative : Bool) (digits : List Char) (places : Nat) (e : Int) : Value :=
  match Number.decimal? (valueOf 10 digits) (e - places) with
  | some x => .float (if negative then -x else x)
  | none => .notFinite

def readDecimal? (cs : List Char) : Option (Except Fault (Value × List Char)) := do
  let (negative, rest) := readSign cs
  let (whole, afterWhole) ← wholePart? rest
  let (places, afterPlaces) := (fraction? afterWhole).getD ([], afterWhole)
  let (e, afterAll) := (exponent? afterPlaces).getD (0, afterPlaces)
  if places = [] ∧ (exponent? afterPlaces).isNone then
    return (wholeNumber negative whole).map (·, afterWhole)
  else return .ok (floatingNumber negative (whole ++ places) places.length e, afterAll)

def isSpecial (name : List Char) : Bool := name == ['i', 'n', 'f'] || name == ['n', 'a', 'n']

def readSpecial? (cs : List Char) : Option (Value × List Char) :=
  let (_, rest) := readSign cs
  if isSpecial (rest.take 3) then some (.notFinite, rest.drop 3) else none

def readNumber? (cs : List Char) : Option (Except Fault (Value × List Char)) :=
  match readBased? cs with
  | some r => some (.ok r)
  | none =>
    match readDecimal? cs with
    | some r => some r
    | none => (readSpecial? cs).map .ok

end LintRunner.Toml
