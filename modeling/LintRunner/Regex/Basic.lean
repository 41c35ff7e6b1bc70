import LintRunner.Text.Blank
import LintRunner.Text.CaseFold
import LintRunner.Text.Word

/-!
Regular expressions with backtracking. `Regex.run` looks for the first way to match, in the order in
which alternatives are written and with each repetition as long (or, if lazy, as short) as it can be,
and hands the place reached to whatever follows.
-/

namespace LintRunner

inductive Folding where
  | none
  | ascii
  | full
deriving DecidableEq, Repr

inductive CharKind where
  | digit
  | space
  | word
deriving DecidableEq, Repr

inductive SetItem where
  | range (lo hi : Nat)
  | kind (k : CharKind) (negated asciiOnly : Bool)
deriving DecidableEq, Repr

structure CharSet where
  negated : Bool
  items : List SetItem
deriving DecidableEq, Repr

inductive Greed where
  | greedy
  | lazy
  | possessive
deriving DecidableEq, Repr

inductive Regex where
  | empty
  | set (folding : Folding) (s : CharSet)
  | seq (a b : Regex)
  | alt (a b : Regex)
  | repeated (r : Regex) (least : Nat) (most : Option Nat) (greed : Greed)
  | group (n : Nat) (r : Regex)
  | again (folding : Folding) (n : Nat)
  | textStart
  | lineStart
  | textEnd
  /-- The end of the text, or before the line feed that ends it. -/
  | lastEnd
  | lineEnd
  | boundary (negated asciiOnly : Bool)
  | ahead (negated : Bool) (r : Regex)
  | behind (negated : Bool) (width : Nat) (r : Regex)
  | ifGroup (n : Nat) (yes no : Regex)
  | atomic (r : Regex)
deriving Repr

/-- A place in a text: what lies before it, nearest first, what lies ahead, and what the groups
matched on the way. -/
structure Cursor where
  before : List Char
  after : List Char
  groups : List (Nat × List Char)

namespace CharKind

def holds (k : CharKind) (asciiOnly : Bool) (c : Char) : Bool :=
  if asciiOnly && c.toNat ≥ 128 then false
  else match k with
    | digit => Text.isDecimal c
    | space => if asciiOnly then c == ' ' || (9 ≤ c.toNat && c.toNat ≤ 13) else Text.isBlank c
    | word => Text.isWord c

end CharKind

namespace Folding

def variants (f : Folding) (c : Char) : List Nat :=
  match f with
  | none => [c.toNat]
  | ascii => if c.isAlpha then [c.toLower.toNat, c.toUpper.toNat] else [c.toNat]
  | full => Text.caseClass c.toNat

def lower (f : Folding) (c : Char) : Char :=
  match f with
  | none => c
  | ascii => c.toLower
  | full => Text.toLower c

end Folding

namespace CharSet

def one (c : Char) : CharSet := ⟨false, [.range c.toNat c.toNat]⟩

def allBut (c : Char) : CharSet := ⟨true, [.range c.toNat c.toNat]⟩

def all : CharSet := ⟨true, []⟩

def itemHolds (f : Folding) (c : Char) : SetItem → Bool
  | .range lo hi => (f.variants c).any fun n => lo ≤ n && n ≤ hi
  | .kind k negated asciiOnly => k.holds asciiOnly (f.lower c) != negated

def contains (s : CharSet) (f : Folding) (c : Char) : Bool :=
  s.items.any (itemHolds f c) != s.negated

end CharSet

namespace Cursor

def start (text : List Char) : Cursor := ⟨[], text, []⟩

def group? (c : Cursor) (n : Nat) : Option (List Char) := c.groups.lookup n

def step? (c : Cursor) : Option (Char × Cursor) :=
  match c.after with
  | [] => none
  | x :: rest => some (x, { c with before := x :: c.before, after := rest })

def over? (f : Folding) (c : Cursor) : List Char → Option Cursor
  | [] => some c
  | x :: rest =>
    match c.step? with
    | some (y, c') => if f.lower x = f.lower y then over? f c' rest else none
    | none => none

def back? : Nat → Cursor → Option Cursor
  | 0, c => some c
  | n + 1, c =>
    match c.before with
    | [] => none
    | x :: rest => back? n { c with before := rest, after := x :: c.after }

def since (c earlier : Cursor) : List Char :=
  earlier.after.take (earlier.after.length - c.after.length)

def atSamePlace (c d : Cursor) : Bool := c.after.length == d.after.length

def wordAt (asciiOnly : Bool) : List Char → Bool
  | [] => false
  | x :: _ => CharKind.word.holds asciiOnly x

def atBoundary (c : Cursor) (asciiOnly : Bool) : Bool :=
  wordAt asciiOnly c.before != wordAt asciiOnly c.after

def isBlank (c : Cursor) : Bool := c.before == [] && c.after == []

end Cursor

namespace Regex

/-- A way to match: where to go on, and what has to follow. -/
abbrev Matcher (β : Type) := Cursor → (Cursor → Option β) → Option β

def exactly {β : Type} (body : Matcher β) : Nat → Matcher β
  | 0, c, k => k c
  | n + 1, c, k => body c fun d => exactly body n d k

/-- Up to `n` more rounds, as many as possible. A round that goes nowhere is the last. -/
def manyOf {β : Type} (body : Matcher β) : Nat → Matcher β
  | 0, c, k => k c
  | n + 1, c, k =>
    (body c fun d => if d.atSamePlace c then k d else manyOf body n d k).or (k c)

def fewOf {β : Type} (body : Matcher β) : Nat → Matcher β
  | 0, c, k => k c
  | n + 1, c, k =>
    (k c).or (body c fun d => if d.atSamePlace c then k d else fewOf body n d k)

/-- No more rounds than this can make a difference from `c`. -/
def roundsLeft (c : Cursor) (least : Nat) (most : Option Nat) : Nat :=
  match most with
  | none => c.after.length + 1
  | some m => min (m - least) (c.after.length + 1)

def optionally {β : Type} (greed : Greed) (body : Matcher β) (least : Nat) (most : Option Nat) :
    Matcher β := fun c k =>
  match greed with
  | .lazy => fewOf body (roundsLeft c least most) c k
  | _ => manyOf body (roundsLeft c least most) c k

def test {β : Type} (b : Bool) : Matcher β := fun c k => if b then k c else none

def run : Regex → {β : Type} → Matcher β
  | empty, _, c, k => k c
  | set f s, _, c, k =>
    match c.step? with
    | some (x, d) => if s.contains f x then k d else none
    | none => none
  | seq a b, _, c, k => a.run c fun d => b.run d k
  | alt a b, _, c, k => (a.run c k).or (b.run c k)
  | repeated r least most .possessive, _, c, k =>
    match (exactly r.run least c fun d => optionally .greedy r.run least most d some : Option Cursor) with
    | some d => k d
    | none => none
  | repeated r least most greed, _, c, k =>
    exactly r.run least c fun d => optionally greed r.run least most d k
  | group n r, _, c, k => r.run c fun d => k { d with groups := (n, d.since c) :: d.groups }
  | again f n, _, c, k =>
    match c.group? n with
    | some text => (c.over? f text).bind k
    | none => none
  | textStart, _, c, k => test c.before.isEmpty c k
  | lineStart, _, c, k => test (c.before.head?.all (· == '\n')) c k
  | textEnd, _, c, k => test c.after.isEmpty c k
  | lastEnd, _, c, k => test (c.after == [] || c.after == ['\n']) c k
  | lineEnd, _, c, k => test (c.after.head?.all (· == '\n')) c k
  | boundary negated asciiOnly, _, c, k =>
    test (!c.isBlank && c.atBoundary asciiOnly != negated) c k
  | ahead negated r, _, c, k =>
    match (r.run c some : Option Cursor) with
    | some d => if negated then none else k { c with groups := d.groups }
    | none => if negated then k c else none
  | behind negated width r, _, c, k =>
    match (c.back? width).bind fun b => (r.run b some : Option Cursor) with
    | some d => if negated then none else k { c with groups := d.groups }
    | none => if negated then k c else none
  | ifGroup n yes no, _, c, k =>
    if (c.group? n).isSome then yes.run c k else no.run c k
  | atomic r, _, c, k =>
    match (r.run c some : Option Cursor) with
    | some d => k d
    | none => none

/-- Tries every place from `c` on, and answers with the end of the first match. -/
def searchFrom (r : Regex) (before : List Char) : List Char → Option Cursor
  | [] => r.run ⟨before, [], []⟩ some
  | x :: rest =>
    (r.run ⟨before, x :: rest, []⟩ some).or (searchFrom r (x :: before) rest)

def search (r : Regex) (text : List Char) : Option Cursor := r.searchFrom [] text

def found (r : Regex) (text : List Char) : Bool := (r.search text).isSome

def char (c : Char) : Regex := .set .none (.one c)

def dot : Regex := .set .none (.allBut '\n')

def inOrder : List Regex → Regex
  | [] => .empty
  | [r] => r
  | r :: rs => .seq r (inOrder rs)

def oneOf : List Regex → Regex
  | [] => .set .none ⟨false, []⟩
  | [r] => r
  | r :: rs => .alt r (oneOf rs)

def star (r : Regex) : Regex := .repeated r 0 none .greedy

def plus (r : Regex) : Regex := .repeated r 1 none .greedy

def optional (r : Regex) : Regex := .repeated r 0 (some 1) .greedy

end Regex

end LintRunner
