import LintRunner.Toml.Moment
import LintRunner.Toml.Number

/-!
Values in TOML that hold no others.
-/

namespace LintRunner.Toml

def textBefore (cs rest : List Char) : String := String.ofList (cs.take (cs.length - rest.length))

def readTruth? (cs : List Char) : Option (Value × List Char) :=
  if cs.take 4 == ['t', 'r', 'u', 'e'] then some (.bool true, cs.drop 4)
  else if cs.take 5 == ['f', 'a', 'l', 's', 'e'] then some (.bool false, cs.drop 5)
  else none

def readPlain (cs : List Char) : Except Fault (Value × List Char) :=
  match readMoment? cs with
  | some r => r.map fun rest => (.moment (textBefore cs rest), rest)
  | none => (readNumber? cs).getD (.error .malformed)

def readScalar (cs : List Char) : Except Fault (Value × List Char) :=
  match readString? cs with
  | some r => (orMalformed r).map fun (s, rest) => (.string (String.ofList s), rest)
  | none =>
    match readTruth? cs with
    | some r => .ok r
    | none => readPlain cs

end LintRunner.Toml
