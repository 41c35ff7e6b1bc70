import LintRunner.Text.Lines

/-!
Paths as lists of names. Empty names and single dots are dropped when a path is read; `..` is kept,
because what it means depends on links. Paths are ordered name by name, not as texts, so `a/x` comes
before `a-b/x`.
-/

namespace LintRunner

/-- What a path starts with. Exactly two slashes are kept apart from one. -/
inductive Anchor where
  | relative
  | root
  | doubleRoot
deriving DecidableEq, Repr

structure Path where
  anchor : Anchor
  parts : List String
deriving DecidableEq, Repr

namespace Anchor

def text : Anchor → String
  | relative => ""
  | root => "/"
  | doubleRoot => "//"

end Anchor

namespace Path

def here : Path := ⟨.relative, []⟩

def anchorOf : List Char → Anchor
  | '/' :: '/' :: '/' :: _ => .root
  | '/' :: '/' :: _ => .doubleRoot
  | '/' :: _ => .root
  | _ => .relative

/-- A name that takes part in a path; the others stand for no step at all. -/
def isName (s : String) : Bool := s != "" && s != "."

/-- The names between slashes, with empty names but not dots removed. -/
def namesIn (s : String) : List String :=
  ((Text.fields '/' s.toList).map String.ofList).filter (· != "")

def ofString (s : String) : Path :=
  ⟨anchorOf s.toList, (namesIn s).filter isName⟩

def text (p : Path) : String :=
  match p.anchor, p.parts with
  | .relative, [] => "."
  | a, ps => a.text ++ "/".intercalate ps

def isAbsolute (p : Path) : Bool := p.anchor != .relative

/-- The anchor counts as a name of its own. -/
def key (p : Path) : List String :=
  match p.anchor with
  | .relative => p.parts
  | a => a.text :: p.parts

def join (p q : Path) : Path :=
  if q.isAbsolute then q else { p with parts := p.parts ++ q.parts }

instance : Div Path := ⟨join⟩

def child (p : Path) (name : String) : Path := { p with parts := p.parts ++ [name] }

/-- The top of a path is its own parent. -/
def parent (p : Path) : Path := { p with parts := p.parts.dropLast }

/-- Every proper beginning of a list, longest first. -/
def beginnings : List α → List (List α)
  | [] => []
  | x :: xs => ((beginnings xs).map (x :: ·)) ++ [[]]

def parents (p : Path) : List Path := (beginnings p.parts).map fun ps => { p with parts := ps }

def name (p : Path) : String := p.parts.getLast?.getD ""

def afterFront [DecidableEq α] : List α → List α → Option (List α)
  | [], xs => some xs
  | _ :: _, [] => none
  | f :: fs, x :: xs => if f = x then afterFront fs xs else none

def relativeTo? (p base : Path) : Option Path :=
  if p.anchor = base.anchor then (afterFront base.parts p.parts).map (⟨.relative, ·⟩) else none

theorem afterFront_eq_some_iff [DecidableEq α] {front xs rest : List α} :
    afterFront front xs = some rest ↔ xs = front ++ rest := by
  induction front generalizing xs with
  | nil => simp [afterFront, eq_comm]
  | cons f fs ih =>
    cases xs with
    | nil => simp [afterFront]
    | cons x xs =>
      simp only [afterFront, List.cons_append, List.cons.injEq]
      by_cases h : f = x
      · simp [h, ih]
      · simp [h, Ne.symm h]

theorem relativeTo?_eq_some_iff {p base q : Path} :
    p.relativeTo? base = some q ↔
      q.anchor = .relative ∧ p = { base with parts := base.parts ++ q.parts } := by
  obtain ⟨pa, pp⟩ := p
  obtain ⟨ba, bp⟩ := base
  obtain ⟨qa, qp⟩ := q
  simp only [relativeTo?]
  by_cases h : pa = ba
  · simp only [h, if_true, Option.map_eq_some_iff, afterFront_eq_some_iff, Path.mk.injEq, true_and]
    constructor
    · rintro ⟨a, ha, rfl, rfl⟩
      exact ⟨rfl, ha⟩
    · rintro ⟨rfl, hp⟩
      exact ⟨qp, hp, rfl, rfl⟩
  · simp [h]

/-- The last dot and what follows it, unless that dot starts or ends the name. -/
def suffix (p : Path) : String :=
  let cs := p.name.toList
  let tail := (cs.reverse.takeWhile (· != '.')).reverse
  if tail.isEmpty || cs.length ≤ tail.length + 1 then "" else String.ofList ('.' :: tail)

def before (p q : Path) : Bool := decide (p.key < q.key)

def insert (p : Path) : List Path → List Path
  | [] => [p]
  | q :: rest =>
    if p = q then q :: rest
    else if p.before q then p :: q :: rest
    else q :: insert p rest

def sortedSet (ps : List Path) : List Path := ps.foldr insert []

def place (p : Path) : List Path → List Path
  | [] => [p]
  | q :: rest => if q.before p then q :: place p rest else p :: q :: rest

def sorted (ps : List Path) : List Path := ps.foldr place []

theorem mem_insert {p q : Path} {ps : List Path} : q ∈ insert p ps ↔ q = p ∨ q ∈ ps := by
  induction ps with
  | nil => simp [insert]
  | cons r rest ih =>
    simp only [insert]
    split
    · next h => subst h; simp
    · split
      · simp
      · simp [ih, or_left_comm]

theorem mem_sortedSet {q : Path} {ps : List Path} : q ∈ sortedSet ps ↔ q ∈ ps := by
  induction ps with
  | nil => simp [sortedSet]
  | cons p rest ih => simpa [sortedSet, mem_insert] using or_congr_right ih

theorem mem_place {p q : Path} {ps : List Path} : q ∈ place p ps ↔ q = p ∨ q ∈ ps := by
  induction ps with
  | nil => simp [place]
  | cons r rest ih =>
    simp only [place]
    split <;> simp [ih, or_left_comm]

theorem mem_sorted {q : Path} {ps : List Path} : q ∈ sorted ps ↔ q ∈ ps := by
  induction ps with
  | nil => simp [sorted]
  | cons p rest ih => simpa [sorted, mem_place] using or_congr_right ih

end Path

end LintRunner
