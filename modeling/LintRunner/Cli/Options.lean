/-!
Reading the arguments of a command line. Options have long names behind two hyphens and short ones of
a single letter behind one; short flags can be run together, and a value may follow its option at
once. Two hyphens alone end the options.
-/

namespace LintRunner.Cli

/-- An option of a command: what it is called, what it means, and whether a value belongs to it. -/
structure Known (κ : Type) where
  names : List String
  key : κ
  takesValue : Bool

inductive Given (κ : Type) where
  | flag (key : κ)
  | value (key : κ) (text : String)
  | plain (text : String)

/-- What is still expected behind an argument. -/
inductive Awaited (κ : Type) where
  | nothing
  | valueOf (key : κ)

variable {κ : Type}

def find? (known : List (Known κ)) (name : String) : Option (Known κ) :=
  known.find? (·.names.contains name)

/-- Letters of short options; what follows the letter of an option with a value is its value. -/
def readLetters (known : List (Known κ)) : List Char → Option (List (Given κ) × Awaited κ)
  | [] => some ([], .nothing)
  | c :: rest => do
    let k ← find? known ("-" ++ String.singleton c)
    if k.takesValue then
      if rest = [] then some ([], .valueOf k.key)
      else some ([.value k.key (String.ofList rest)], .nothing)
    else
      let (given, awaited) ← readLetters known rest
      some (.flag k.key :: given, awaited)

/-- A long option, with its value if an equals sign joins one to it. -/
def readLong (known : List (Known κ)) (arg : List Char) : Option (List (Given κ) × Awaited κ) := do
  let name := arg.takeWhile (· ≠ '=')
  let k ← find? known (String.ofList name)
  match arg.drop name.length, k.takesValue with
  | [], false => some ([.flag k.key], .nothing)
  | [], true => some ([], .valueOf k.key)
  | _ :: _, false => none
  | _ :: value, true => some ([.value k.key (String.ofList value)], .nothing)

def readOption? (known : List (Known κ)) (arg : String) :
    Option (Option (List (Given κ) × Awaited κ)) :=
  match arg.toList with
  | '-' :: '-' :: rest => some (readLong known ('-' :: '-' :: rest))
  | '-' :: c :: rest => some (readLetters known (c :: rest))
  | _ => none

/-- Reads all arguments. Unless `mixed` is set, the options end where the first other argument is;
what follows is returned as it stands. -/
def readArguments (known : List (Known κ)) (mixed : Bool) :
    Awaited κ → List String → Option (List (Given κ) × List String)
  | .nothing, [] => some ([], [])
  | .valueOf _, [] => none
  | .valueOf key, arg :: rest => do
    let (given, left) ← readArguments known mixed .nothing rest
    return (.value key arg :: given, left)
  | .nothing, arg :: rest =>
    if arg = "--" then some ([], rest)
    else
      match readOption? known arg with
      | some none => none
      | some (some (front, awaited)) => do
        let (given, left) ← readArguments known mixed awaited rest
        return (front ++ given, left)
      | none =>
        if mixed then do
          let (given, left) ← readArguments known mixed .nothing rest
          return (.plain arg :: given, left)
        else some ([], arg :: rest)

def isGiven [DecidableEq κ] (key : κ) (given : List (Given κ)) : Bool :=
  given.any fun
    | .flag k => k = key
    | _ => false

def valuesOf [DecidableEq κ] (key : κ) (given : List (Given κ)) : List String :=
  given.filterMap fun
    | .value k text => if k = key then some text else none
    | _ => none

def valueOf? [DecidableEq κ] (key : κ) (given : List (Given κ)) : Option String :=
  (valuesOf key given).getLast?

def plainOf (given : List (Given κ)) : List String :=
  given.filterMap fun
    | .plain text => some text
    | _ => none

end LintRunner.Cli
