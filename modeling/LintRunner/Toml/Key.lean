import LintRunner.Toml.Quoted

/-!
Keys in TOML: names, bare or in quotes, joined by dots with blanks around them.
-/

namespace LintRunner.Toml

def isBare (c : Char) : Bool := c.isAlphanum || c = '-' || c = '_'

def readName : List Char → Option (List Char × List Char)
  | '"' :: rest => readBasic false .plain rest
  | '\'' :: rest => readLiteral rest
  | cs =>
    match cs.takeWhile isBare with
    | [] => none
    | bare => some (bare, cs.dropWhile isBare)

def readNames : Nat → List Char → Option (List String × List Char)
  | 0, _ => none
  | most + 1, cs => do
    let (name, rest) ← readName cs
    match skipBlanks rest with
    | '.' :: rest =>
      let (names, rest) ← readNames most (skipBlanks rest)
      return (String.ofList name :: names, rest)
    | rest => return ([String.ofList name], rest)

def readKey (cs : List Char) : Option (List String × List Char) := readNames (cs.length + 1) cs

def keyNames? (s : String) : Option (List String) :=
  match readKey s.toList with
  | some (names, []) => some names
  | _ => none

end LintRunner.Toml
