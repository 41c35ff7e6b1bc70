import LintRunner.Config.Verdict
import LintRunner.Number
import LintRunner.Text.Blank
import LintRunner.Value

/-!
Taking a value for what a setting expects. Some leeway is given: a single string may stand for a
list, a word or a number for a truth value, and a string of digits for a number.
-/

namespace LintRunner.Config

def readText : Value → Verdict String
  | .string s => .sound s
  | _ => .refuse .notString

def readOptional {α : Type} (read : Value → Verdict α) : Value → Verdict (Option α)
  | .absent => .sound none
  | v => some <$> read v

/-- A list of strings; a single string stands for itself. -/
def readTexts : Value → Verdict (List String)
  | .absent => .sound []
  | .string s => .sound [s]
  | .list items => .each readText items
  | _ => .refuse (.bad .notStrings)

def readTextTable : Value → Verdict (List (String × String))
  | .table entries => .eachKey readText entries
  | _ => .refuse .notTable

def choose? {α : Type} (text : α → String) (every : List α) : Value → Option α
  | .string s => every.find? (text · == s)
  | _ => none

def readChoice {α : Type} (complaint : List String → Complaint) (text : α → String) (every : List α)
    (v : Value) : Verdict α :=
  match choose? text every v with
  | some a => .sound a
  | none => .refuse (complaint (every.map text))

def trueWords : List String := ["1", "on", "t", "true", "y", "yes"]

def falseWords : List String := ["0", "off", "f", "false", "n", "no"]

def truthOfWord (word : String) : Verdict Bool :=
  if trueWords.contains word then .sound true
  else if falseWords.contains word then .sound false
  else .refuse .unreadableBool

def readTruth : Value → Verdict Bool
  | .bool b => .sound b
  | .int n =>
    if n = 1 then .sound true else if n = 0 then .sound false else .refuse .unreadableBool
  | .float x => if x = 1 then .sound true else if x = 0 then .sound false else .refuse .notBool
  | .string s => truthOfWord s.toLower
  | _ => .refuse .notBool

/-- The separators of files, groups and records do not count as blanks around a number. -/
def isMargin (c : Char) : Bool := Text.isBlank c && !(0x1c ≤ c.toNat && c.toNat ≤ 0x1f)

def withoutMargins (cs : List Char) : List Char :=
  ((cs.dropWhile isMargin).reverse.dropWhile isMargin).reverse

/-- Zeros in front are dropped, and underscores among them, as long as a zero stands before the
point or the end. -/
def withoutZeros (cs : List Char) : Option (List Char) :=
  let zeros := cs.takeWhile fun c => c = '0' || c = '_'
  match cs.dropWhile fun c => c = '0' || c = '_' with
  | c :: rest =>
    if c = '.' then if zeros.getLast? = some '0' then some ('0' :: c :: rest) else none
    else some (c :: rest)
  | [] => if zeros.getLast? = some '0' then some ['0'] else none

def withoutPoint (cs : List Char) : List Char :=
  if ((cs.dropWhile (· ≠ '.')).drop 1).all (· = '0') then cs.takeWhile (· ≠ '.') else cs

def withoutUnderscores : List Char → List Char
  | a :: '_' :: b :: rest =>
    if a = '_' ∨ b = '_' then a :: '_' :: b :: rest else a :: withoutUnderscores (b :: rest)
  | c :: rest => c :: withoutUnderscores rest
  | [] => []

/-- A number with a minus sign may have no zeros in front. -/
def negativeOf (cs : List Char) : Option Int :=
  let body := withoutUnderscores (withoutPoint cs)
  if body.head? = some '0' ∧ body ≠ ['0'] then none else (Number.ofDigits? body).map fun n => -(n : Int)

def positiveOf (cs : List Char) : Option Int :=
  if !cs.head?.any Char.isDigit then none
  else do
    let n ← Number.ofDigits? (withoutUnderscores (withoutPoint (← withoutZeros cs)))
    return (n : Int)

def integerOf (cs : List Char) : Option Int :=
  match withoutMargins cs with
  | '-' :: rest => negativeOf rest
  | '+' :: rest => positiveOf rest
  | rest => positiveOf rest

/-- Numbers of this size and beyond are not taken from a fractional number. -/
def integerLimit : Rat := Number.twoTo 63

def readInteger : Value → Verdict Int
  | .bool b => .sound (if b then 1 else 0)
  | .int n => .sound n
  | .float x =>
    if x.den ≠ 1 then .refuse .fractionalInteger
    else if -integerLimit < x ∧ x < integerLimit then .sound x.num
    else .refuse .integerTooLong
  | .notFinite => .refuse .notFinite
  | .string s =>
    if Number.mostDigits < s.utf8ByteSize then .refuse .integerTooLong
    else match integerOf s.toList with
      | some n => .sound n
      | none => .refuse .unreadableInteger
  | _ => .refuse .notInteger

end LintRunner.Config
