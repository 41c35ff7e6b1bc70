import LintRunner.Toml.Basic

/-!
Strings in TOML. Literal strings stand as they are; basic strings know escapes. Both come on a single
line or as a block over several. Each reader starts behind the opening quotes and returns the string
with what follows its closing quotes.
-/

namespace LintRunner.Toml

def consResult (c : Char) : Option (List Char × List Char) → Option (List Char × List Char) :=
  Option.map fun r => (c :: r.1, r.2)

def readLiteral : List Char → Option (List Char × List Char)
  | [] => none
  | c :: rest =>
    if c = '\'' then some ([], rest)
    else if isControl c then none
    else consResult c (readLiteral rest)

def isClosed (quote : Char) (rest : List Char) : Bool := rest.take 2 == [quote, quote]

def readLiteralBlock : List Char → Option (List Char × List Char)
  | [] => none
  | c :: rest =>
    if c = '\'' && isClosed '\'' rest then some ([], rest.drop 2)
    else if isControl c && c ≠ '\n' then none
    else consResult c (readLiteralBlock rest)

def hexValue? (c : Char) : Option Nat :=
  if c.isDigit then some (c.toNat - 48)
  else if 'a' ≤ c ∧ c ≤ 'f' then some (c.toNat - 87)
  else if 'A' ≤ c ∧ c ≤ 'F' then some (c.toNat - 55)
  else none

def escapes : List (Char × Char) :=
  [('b', '\x08'), ('t', '\t'), ('n', '\n'), ('f', '\x0c'), ('r', '\r'), ('"', '"'), ('\\', '\\')]

/-- The character with a code point, unless it is half of a surrogate pair or beyond the last. -/
def scalar? (n : Nat) : Option Char := if n.isValidChar then some (Char.ofNat n) else none

inductive Place where
  | plain
  | escape
  /-- Among the hexadecimal digits of a code point, with so many to come. -/
  | code (left soFar : Nat)
  /-- Between a backslash and the end of its line. -/
  | beforeBreak
  /-- Behind the end of a line that a backslash has joined to the next. -/
  | afterBreak
deriving DecidableEq, Repr

def readBasic (block : Bool) : Place → List Char → Option (List Char × List Char)
  | _, [] => none
  | .escape, c :: rest =>
    match escapes.lookup c with
    | some meant => consResult meant (readBasic block .plain rest)
    | none =>
      if c = 'u' then readBasic block (.code 4 0) rest
      else if c = 'U' then readBasic block (.code 8 0) rest
      else if block && c = '\n' then readBasic block .afterBreak rest
      else if block && isBlank c then readBasic block .beforeBreak rest
      else none
  | .code left soFar, c :: rest =>
    match hexValue? c with
    | none => none
    | some digit =>
      if 1 < left then readBasic block (.code (left - 1) (soFar * 16 + digit)) rest
      else
        match scalar? (soFar * 16 + digit) with
        | none => none
        | some meant => consResult meant (readBasic block .plain rest)
  | .beforeBreak, c :: rest =>
    if c = '\n' then readBasic block .afterBreak rest
    else if isBlank c then readBasic block .beforeBreak rest
    else none
  | place, c :: rest =>
    if place = .afterBreak ∧ isBlankOrBreak c then readBasic block .afterBreak rest
    else if c = '\\' then readBasic block .escape rest
    else if c = '"' && !block then some ([], rest)
    else if c = '"' && isClosed '"' rest then some ([], rest.drop 2)
    else if isControl c && !(block && c = '\n') then none
    else consResult c (readBasic block .plain rest)

/-- Up to two quotes right behind the closing ones belong to the string. -/
def takeQuotes (quote : Char) (r : List Char × List Char) : List Char × List Char :=
  let extra := (r.2.take 2).takeWhile (· = quote)
  (r.1 ++ extra, r.2.drop extra.length)

/-- A line end right behind the opening quotes is no part of the string. -/
def dropBreak : List Char → List Char
  | '\n' :: rest => rest
  | cs => cs

def readString? : List Char → Option (Option (List Char × List Char))
  | '"' :: rest =>
    if isClosed '"' rest then
      some ((readBasic true .plain (dropBreak (rest.drop 2))).map (takeQuotes '"'))
    else some (readBasic false .plain rest)
  | '\'' :: rest =>
    if isClosed '\'' rest then
      some ((readLiteralBlock (dropBreak (rest.drop 2))).map (takeQuotes '\''))
    else some (readLiteral rest)
  | _ => none

end LintRunner.Toml
