/-!
What separates the parts of a TOML document: blanks, line ends and comments.
-/

namespace LintRunner.Toml

inductive Fault where
  | malformed
  | integerTooLong
deriving DecidableEq, Repr

def isBlank (c : Char) : Bool := c = ' ' || c = '\t'

def isBlankOrBreak (c : Char) : Bool := isBlank c || c = '\n'

/-- Characters that may not stand in a string or a comment as they are. -/
def isControl (c : Char) : Bool := (c.toNat < 0x20 && c ≠ '\t') || c.toNat = 0x7f

def skipBlanks (cs : List Char) : List Char := cs.dropWhile isBlank

def orMalformed {α : Type} : Option α → Except Fault α
  | some a => .ok a
  | none => .error .malformed

/-- Skips a comment, if one starts here, up to the end of its line. The flag tells that one has
started. -/
def skipComment : Bool → List Char → Except Fault (List Char)
  | _, [] => .ok []
  | false, c :: rest => if c = '#' then skipComment true rest else .ok (c :: rest)
  | true, c :: rest =>
    if c = '\n' then .ok (c :: rest)
    else if isControl c then .error .malformed
    else skipComment true rest

def skipLoose : Bool → List Char → Except Fault (List Char)
  | _, [] => .ok []
  | true, c :: rest =>
    if c = '\n' then skipLoose false rest
    else if isControl c then .error .malformed
    else skipLoose true rest
  | false, c :: rest =>
    if isBlankOrBreak c then skipLoose false rest
    else if c = '#' then skipLoose true rest
    else .ok (c :: rest)

end LintRunner.Toml
