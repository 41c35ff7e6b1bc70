import LintRunner.Pattern.Basic
import LintRunner.Path.Basic

/-!
Lists of patterns asked about paths. Patterns that match the path itself count for more than
patterns that match a directory above it; among those that count for the same the last one decides.
-/

namespace LintRunner

namespace Pattern

def weight (c : Cursor) : Nat := if throughDirectory c then 1 else 2

structure Held where
  weight : Nat
  positive : Bool

/-- Asks one pattern more, after those that follow it in the list. -/
def ask (path : List Char) (p : Pattern) (held : Option Held) : Option Held :=
  match p.find? path with
  | none => held
  | some c =>
    if (held.map (·.weight)).getD 0 < weight c then some ⟨weight c, p.positive⟩ else held

/-- What the list says of a path; none where nothing in it matches. -/
def verdict (ps : List Pattern) (path : List Char) : Option Bool :=
  (ps.foldr (ask path) none).map (·.positive)

structure BadLine where
  line : String
  flaw : Flaw

def readAll : List String → Except BadLine (List Pattern)
  | [] => .ok []
  | line :: rest =>
    match read line with
    | .error flaw => .error ⟨line, flaw⟩
    | .ok p => (readAll rest).map (p :: ·)

def malformedReason (line : String) : String := "Invalid git pattern: " ++ Text.quoted line

end Pattern

/-- Patterns whose leading slash means `root`. -/
structure Matcher where
  root : Path
  patterns : List Pattern

namespace Matcher

def compile (root : Path) (lines : List String) : Except Pattern.BadLine Matcher :=
  (Pattern.readAll lines).map (⟨root, ·⟩)

/-- The names below the root; none for the root itself and for what lies outside it. -/
def candidate? (m : Matcher) (p : Path) : Option (List String) := do
  let below ← if p.isAbsolute then p.relativeTo? m.root else some p
  if below.parts = [] then none else some below.parts

def subject (names : List String) (isDirectory : Bool) : List Char :=
  ("/".intercalate names).toList ++ (if isDirectory then ['/'] else [])

def covers (m : Matcher) (p : Path) (isDirectory : Bool) : Bool :=
  match m.candidate? p with
  | none => false
  | some names => (Pattern.verdict m.patterns (subject names isDirectory)).getD false

end Matcher

end LintRunner
