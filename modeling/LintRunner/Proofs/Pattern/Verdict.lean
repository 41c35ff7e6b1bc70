import LintRunner.Ignore.Rules
import LintRunner.Proofs.Path.Below
import LintRunner.Proofs.Run.Basic
import LintRunner.Script
import Mathlib.Logic.Basic
import Mathlib.Tactic.ByContra

/-! Two ways to ask a list of patterns about a path. For an ignore file the last pattern that matches
decides. For a matcher a pattern that matches the path itself outweighs those that match a directory
above it, wherever they stand, and only among matches of one weight does the last decide. -/

namespace LintRunner

namespace Pattern

variable {ps : List Pattern} {p q : Pattern} {path : List Char} {b : Bool} {c : Cursor}

theorem covers_eq_true_iff : p.covers path = true ↔ ∃ c, p.find? path = some c :=
  Option.isSome_iff_exists

theorem covers_of_find? (hc : p.find? path = some c) : p.covers path = true :=
  covers_eq_true_iff.2 ⟨c, hc⟩

/-- `p` is the last pattern that matches. -/
def IsLast (path : List Char) (ps : List Pattern) (p : Pattern) : Prop :=
  ∃ front back, ps = front ++ p :: back ∧ p.covers path = true ∧ ∀ q ∈ back, q.covers path = false

theorem weight_pos (c : Cursor) : 0 < weight c := by
  unfold weight
  split <;> omega

/-- `p` matches at `c`, none after it counts for as much and none before it for more. -/
def Prevails (path : List Char) (ps : List Pattern) (p : Pattern) (c : Cursor) : Prop :=
  ∃ front back, ps = front ++ p :: back ∧ p.find? path = some c ∧
    (∀ q ∈ back, ∀ d, q.find? path = some d → weight d < weight c) ∧
    ∀ q ∈ front, ∀ d, q.find? path = some d → weight d ≤ weight c

theorem prevails_head (hp : p.find? path = some c)
    (hps : ∀ q ∈ ps, ∀ d, q.find? path = some d → weight d < weight c) :
    Prevails path (p :: ps) p c := ⟨[], ps, rfl, hp, hps, by simp⟩

theorem Prevails.cons (hp : Prevails path ps p c)
    (hq : ∀ d, q.find? path = some d → weight d ≤ weight c) : Prevails path (q :: ps) p c := by
  obtain ⟨front, back, rfl, hc, hback, hfront⟩ := hp
  exact ⟨q :: front, back, rfl, hc, hback, List.forall_mem_cons.2 ⟨hq, hfront⟩⟩

theorem Prevails.weight_le (hp : Prevails path ps p c) :
    ∀ q ∈ ps, ∀ d, q.find? path = some d → weight d ≤ weight c := by
  obtain ⟨front, back, rfl, hc, hback, hfront⟩ := hp
  intro q hq d hd
  rcases List.mem_append.1 hq with hq | hq
  · exact hfront q hq d hd
  · rcases List.mem_cons.1 hq with rfl | hq
    · rw [hc] at hd
      exact Nat.le_of_eq (congrArg weight (Option.some.inj hd)).symm
    · exact Nat.le_of_lt (hback q hq d hd)

/-- What a match found so far counts for; nothing if there is none. -/
def Held.weightOf (held : Option Held) : Nat := (held.map (·.weight)).getD 0

theorem ask_of_le {held : Option Held}
    (hp : ∀ c, p.find? path = some c → weight c ≤ Held.weightOf held) : ask path p held = held := by
  unfold ask
  split
  · rfl
  · next c hc => exact if_neg (Nat.not_lt.2 (hp c hc))

theorem ask_of_lt {held : Option Held} (hc : p.find? path = some c)
    (hlt : Held.weightOf held < weight c) : ask path p held = some ⟨weight c, p.positive⟩ := by
  simp only [ask, hc]
  exact if_pos hlt

/-- Nothing matches and nothing is held, or it is the pattern that prevails. -/
theorem foldr_ask_cases (path : List Char) (ps : List Pattern) :
    (ps.foldr (ask path) none = none ∧ ∀ p ∈ ps, p.find? path = none) ∨
      ∃ p c, Prevails path ps p c ∧ ps.foldr (ask path) none = some ⟨weight c, p.positive⟩ := by
  induction ps with
  | nil => exact .inl ⟨rfl, by simp⟩
  | cons p ps ih =>
    rw [List.foldr_cons]
    by_cases hle : ∀ d, p.find? path = some d → weight d ≤ Held.weightOf (ps.foldr (ask path) none)
    · rw [ask_of_le hle]
      rcases ih with ⟨hnone, hall⟩ | ⟨q, c, hq, hheld⟩
      · left
        refine ⟨hnone, List.forall_mem_cons.2 ⟨?_, hall⟩⟩
        rw [hnone] at hle
        cases hp : p.find? path with
        | none => rfl
        | some d => exact absurd (hle d hp) (Nat.not_le.2 (weight_pos d))
      · rw [hheld] at hle
        exact .inr ⟨q, c, hq.cons hle, hheld⟩
    · simp only [not_forall, Nat.not_le] at hle
      obtain ⟨d, hp, hlt⟩ := hle
      refine .inr ⟨p, d, prevails_head hp ?_, ask_of_lt hp hlt⟩
      rcases ih with ⟨-, hall⟩ | ⟨q, c, hq, hheld⟩
      · intro r hr e he
        rw [hall r hr] at he
        cases he
      · rw [hheld] at hlt
        exact fun r hr e he => Nat.lt_of_le_of_lt (hq.weight_le r hr e he) hlt

theorem weightOf_foldr_ask_lt {n : Nat} (hn : 0 < n)
    (hps : ∀ p ∈ ps, ∀ c, p.find? path = some c → weight c < n) :
    Held.weightOf (ps.foldr (ask path) none) < n := by
  rcases foldr_ask_cases path ps with ⟨hnone, -⟩ | ⟨p, c, ⟨front, back, rfl, hc, -⟩, hheld⟩
  · rwa [hnone]
  · rw [hheld]
    exact hps p (by simp) c hc

theorem foldr_ask_of_le {held : Option Held}
    (hps : ∀ p ∈ ps, ∀ c, p.find? path = some c → weight c ≤ Held.weightOf held) :
    ps.foldr (ask path) held = held := by
  induction ps with
  | nil => rfl
  | cons p ps ih =>
    rw [List.foldr_cons, ih fun q hq => hps q (by simp [hq])]
    exact ask_of_le (hps p (by simp))

/-- The pattern that prevails decides. -/
theorem verdict_eq_some_iff :
    verdict ps path = some b ↔ ∃ p c, Prevails path ps p c ∧ p.positive = b := by
  constructor
  · intro hb
    rcases foldr_ask_cases path ps with ⟨hnone, -⟩ | ⟨p, c, hp, hheld⟩
    · rw [verdict, hnone] at hb
      cases hb
    · rw [verdict, hheld] at hb
      exact ⟨p, c, hp, Option.some.inj hb⟩
  · rintro ⟨p, c, ⟨front, back, rfl, hp, hback, hfront⟩, rfl⟩
    have hheld : (p :: back).foldr (ask path) none = some ⟨weight c, p.positive⟩ :=
      ask_of_lt hp (weightOf_foldr_ask_lt (weight_pos c) hback)
    rw [verdict, List.foldr_append, hheld, foldr_ask_of_le hfront]
    rfl

theorem verdict_eq_none_iff : verdict ps path = none ↔ ∀ p ∈ ps, p.covers path = false := by
  constructor
  · intro hnone p hp
    rcases foldr_ask_cases path ps with ⟨-, hall⟩ | ⟨q, c, -, hheld⟩
    · rw [covers, hall p hp]
      rfl
    · rw [verdict, hheld] at hnone
      cases hnone
  · intro hall
    rcases foldr_ask_cases path ps with ⟨hnone, -⟩ | ⟨q, c, ⟨front, back, rfl, hc, -⟩, -⟩
    · rw [verdict, hnone]
      rfl
    · have hno := hall q (by simp)
      rw [covers_of_find? hc] at hno
      cases hno

end Pattern

namespace IgnoreFile

open Pattern

variable {ps qs : List Pattern} {p : Pattern} {path : List Char} {b : Bool}

theorem verdictOf_append (ps qs : List Pattern) (path : List Char) :
    verdictOf (ps ++ qs) path = (verdictOf qs path).or (verdictOf ps path) := by
  suffices ∀ v, qs.foldl (fun verdict p => if p.covers path then some p.positive else verdict) v =
      (verdictOf qs path).or v by
    rw [verdictOf, List.foldl_append, this]
    rfl
  induction qs with
  | nil => exact fun v => rfl
  | cons q qs ih =>
    intro v
    have hcons : verdictOf (q :: qs) path =
        (verdictOf qs path).or (if q.covers path then some q.positive else none) := ih _
    rw [List.foldl_cons, ih, hcons]
    split <;> cases verdictOf qs path <;> rfl

theorem verdictOf_cons (p : Pattern) (ps : List Pattern) (path : List Char) :
    verdictOf (p :: ps) path =
      (verdictOf ps path).or (if p.covers path then some p.positive else none) :=
  verdictOf_append [p] ps path

theorem verdictOf_eq_none_iff : verdictOf ps path = none ↔ ∀ p ∈ ps, p.covers path = false := by
  induction ps with
  | nil => simp [verdictOf]
  | cons p ps ih => simp [verdictOf_cons, ih, and_comm]

theorem verdictOf_eq_some_iff :
    verdictOf ps path = some b ↔ ∃ p, IsLast path ps p ∧ p.positive = b := by
  constructor
  · intro hb
    induction ps with
    | nil => cases hb
    | cons p ps ih =>
      rw [verdictOf_cons] at hb
      cases hrest : verdictOf ps path with
      | some b' =>
        rw [hrest] at hb
        obtain ⟨q, ⟨front, back, rfl, hq, hback⟩, hpos⟩ := ih (hrest.trans hb)
        exact ⟨q, ⟨p :: front, back, rfl, hq, hback⟩, hpos⟩
      | none =>
        rw [hrest, Option.none_or, Option.ite_none_right_eq_some] at hb
        exact ⟨p, ⟨[], ps, rfl, hb.1, verdictOf_eq_none_iff.1 hrest⟩, Option.some.inj hb.2⟩
  · rintro ⟨p, ⟨front, back, rfl, hp, hback⟩, rfl⟩
    rw [verdictOf_append, verdictOf_cons, verdictOf_eq_none_iff.2 hback, if_pos hp]
    rfl

/-- Where every line is a pattern, an ignore file holds them all. -/
theorem go_readLines_of_readAll {σ : Type} {lines : List String} (hps : readAll lines = .ok ps)
    (source : Path) (h : Host σ) (w : World σ) : (readLines source lines).go h w = (.ok ps, w) := by
  induction lines generalizing ps with
  | nil =>
    cases hps
    rfl
  | cons line rest ih =>
    unfold readAll at hps
    split at hps
    · cases hps
    · next p hp =>
      cases hrest : readAll rest with
      | error e =>
        rw [hrest] at hps
        cases hps
      | ok qs =>
        rw [hrest] at hps
        cases hps
        simp only [readLines, hp, Run.go_bind_ok (ih hrest)]
        rfl

end IgnoreFile

namespace Pattern

/-- No match counts for more than a later one of the other sign. -/
def Concordant (path : List Char) (ps : List Pattern) : Prop :=
  ps.Pairwise fun p q => p.positive ≠ q.positive → ∀ c d, p.find? path = some c →
    q.find? path = some d → weight c ≤ weight d

variable {ps : List Pattern} {p q : Pattern} {path : List Char} {c : Cursor}

/-- Then the pattern that prevails and the last one that matches say the same. -/
theorem Concordant.positive_eq (hps : Concordant path ps) (hp : Prevails path ps p c)
    (hq : IsLast path ps q) : p.positive = q.positive := by
  obtain ⟨front, back, rfl, hc, hback, -⟩ := hp
  obtain ⟨front', back', heq, hcovers, hback'⟩ := hq
  rcases List.append_eq_append_iff.1 heq with ⟨between, rfl, hrest⟩ | ⟨between, rfl, hrest⟩
  · cases between with
    | nil =>
      obtain ⟨rfl, -⟩ := List.cons_eq_cons.1 hrest
      rfl
    | cons r between =>
      obtain ⟨rfl, rfl⟩ := List.cons_eq_cons.1 hrest
      by_contra hne
      obtain ⟨d, hd⟩ := covers_eq_true_iff.1 hcovers
      have hle : weight c ≤ weight d := by
        have hpair := (List.pairwise_append.1 hps).2.1
        exact (List.pairwise_cons.1 hpair).1 q (by simp) hne c d hc hd
      exact absurd (hback q (by simp) d hd) (Nat.not_lt.2 hle)
  · cases between with
    | nil =>
      obtain ⟨rfl, -⟩ := List.cons_eq_cons.1 hrest
      rfl
    | cons r between =>
      -- the last match would stand before one that prevails
      obtain ⟨rfl, rfl⟩ := List.cons_eq_cons.1 hrest
      have hno := hback' p (by simp)
      rw [covers_of_find? hc] at hno
      cases hno

theorem Concordant.verdict_eq (hps : Concordant path ps) :
    verdict ps path = IgnoreFile.verdictOf ps path := by
  cases hlast : IgnoreFile.verdictOf ps path with
  | none => exact verdict_eq_none_iff.2 (IgnoreFile.verdictOf_eq_none_iff.1 hlast)
  | some b =>
    obtain ⟨q, hq, rfl⟩ := IgnoreFile.verdictOf_eq_some_iff.1 hlast
    cases hv : verdict ps path with
    | none =>
      rw [IgnoreFile.verdictOf_eq_none_iff.2 (verdict_eq_none_iff.1 hv)] at hlast
      cases hlast
    | some b' =>
      obtain ⟨p, c, hp, rfl⟩ := verdict_eq_some_iff.1 hv
      rw [hps.positive_eq hp hq]

end Pattern

namespace Matcher

open Pattern

theorem ne_nil_of_candidate? {m : Matcher} {p : Path} {names : List String}
    (hnames : m.candidate? p = some names) : names ≠ [] := by
  have hbelow (below : Path)
      (hif : (if below.parts = [] then none else some below.parts) = some names) : names ≠ [] := by
    split at hif
    · cases hif
    · next hne =>
      cases hif
      exact hne
  unfold candidate? at hnames
  split at hnames
  · obtain ⟨below, -, hif⟩ := Option.bind_eq_some_iff.1 hnames
    exact hbelow below hif
  · exact hbelow p hnames

theorem covers_eq_verdict {m : Matcher} {p : Path} {names : List String}
    (hnames : m.candidate? p = some names) (isDirectory : Bool) :
    m.covers p isDirectory = (verdict m.patterns (subject names isDirectory)).getD false := by
  rw [covers, hnames]

theorem subject_eq {names : List String} (hnames : names ≠ []) (isDirectory : Bool) :
    IgnoreFile.subject ⟨.relative, names⟩ isDirectory = subject names isDirectory := by
  obtain ⟨name, rest, rfl⟩ := List.exists_cons_of_ne_nil hnames
  simp [IgnoreFile.subject, subject, Path.text, Anchor.text]

/-- The last pattern that matches does not always decide: one that matches the path itself stands
against a later one that matches the directory around it. -/
theorem not_last_decides : ¬ ∀ (root : Path) (lines : List String) (m : Matcher) (p : Path)
    (names : List String) (isDirectory : Bool),
    compile root lines = .ok m → m.candidate? p = some names →
      (m.covers p isDirectory = true ↔
        ∃ q, IsLast (subject names isDirectory) m.patterns q ∧ q.positive = true) := by
  have hruled : (match compile ⟨.root, ["proj"]⟩ ["a/b", "!a/"] with
      | .ok m => decide (m.candidate? ⟨.relative, ["a", "b"]⟩ = some ["a", "b"] ∧
          m.covers ⟨.relative, ["a", "b"]⟩ false = true ∧
          IgnoreFile.verdictOf m.patterns (subject ["a", "b"] false) = some false)
      | .error _ => false) = true := by decide +kernel
  intro hall
  split at hruled
  · next m hm =>
    obtain ⟨hnames, hcovers, hlast⟩ := of_decide_eq_true hruled
    have htrue := IgnoreFile.verdictOf_eq_some_iff.2 ((hall _ _ m _ _ false hm hnames).1 hcovers)
    rw [hlast] at htrue
    cases htrue
  · cases hruled

/-- Below its root a matcher follows the pattern that prevails, and an ignore file with the same lines
the last one that matches. They agree where no match counts for more than a later one of the other
sign. -/
theorem covers_iff_prevails {σ : Type} {root : Path} {lines : List String} {m : Matcher} {p : Path}
    {names : List String} (hm : compile root lines = .ok m) (hnames : m.candidate? p = some names)
    (isDirectory : Bool) (source : Path) (h : Host σ) (w : World σ) :
    (m.covers p isDirectory = true ↔
      ∃ q c, Prevails (subject names isDirectory) m.patterns q c ∧ q.positive = true) ∧
    (IgnoreFile.readLines source lines).go h w = (.ok m.patterns, w) ∧
    (∀ b, IgnoreFile.decide ⟨root, source, m.patterns⟩ (root.down names) isDirectory = some b ↔
      ∃ q, IsLast (subject names isDirectory) m.patterns q ∧ q.positive = b) ∧
    (Concordant (subject names isDirectory) m.patterns → (m.covers p isDirectory = true ↔
      IgnoreFile.decide ⟨root, source, m.patterns⟩ (root.down names) isDirectory = some true)) := by
  have hread : readAll lines = .ok m.patterns := by
    unfold compile at hm
    cases hps : readAll lines with
    | error e =>
      rw [hps] at hm
      cases hm
    | ok ps =>
      rw [hps] at hm
      cases hm
      rfl
  have hdecide : IgnoreFile.decide ⟨root, source, m.patterns⟩ (root.down names) isDirectory =
      IgnoreFile.verdictOf m.patterns (subject names isDirectory) := by
    rw [IgnoreFile.decide, Path.relativeTo?_down, ← subject_eq (ne_nil_of_candidate? hnames)]
  have hcovers : m.covers p isDirectory = true ↔
      verdict m.patterns (subject names isDirectory) = some true := by
    rw [covers_eq_verdict hnames]
    cases verdict m.patterns (subject names isDirectory) <;> simp
  refine ⟨hcovers.trans verdict_eq_some_iff, IgnoreFile.go_readLines_of_readAll hread source h w, ?_, ?_⟩
  · intro b
    rw [hdecide, IgnoreFile.verdictOf_eq_some_iff]
  · intro hps
    rw [hcovers, hdecide, hps.verdict_eq]

/-- Here the two differ: what prevails is `a/b`, and the last match is `!a/`. -/
theorem covers_iff_prevails_overruled : ∃ m,
    compile ⟨.root, ["proj"]⟩ ["a/b", "!a/"] = .ok m ∧
    m.candidate? ⟨.relative, ["a", "b"]⟩ = some ["a", "b"] ∧
    (∃ q c, Prevails (subject ["a", "b"] false) m.patterns q c ∧ q.positive = true) ∧
    ∃ q, IsLast (subject ["a", "b"] false) m.patterns q ∧ q.positive = false := by
  have hruled : (match compile ⟨.root, ["proj"]⟩ ["a/b", "!a/"] with
      | .ok m => decide (m.candidate? ⟨.relative, ["a", "b"]⟩ = some ["a", "b"] ∧
          m.covers ⟨.relative, ["a", "b"]⟩ false = true ∧ IgnoreFile.decide
            ⟨⟨.root, ["proj"]⟩, .here, m.patterns⟩ (Path.down ⟨.root, ["proj"]⟩ ["a", "b"]) false =
              some false)
      | .error _ => false) = true := by decide +kernel
  split at hruled
  · next m hm =>
    obtain ⟨hnames, hcovers, hlast⟩ := of_decide_eq_true hruled
    obtain ⟨hprevails, -, hdecide, -⟩ := covers_iff_prevails hm hnames false .here
      (Script.host [] [] false false) ⟨.empty, {}, [], {}, .warning⟩
    exact ⟨m, hm, hnames, hprevails.1 hcovers, (hdecide false).1 hlast⟩
  · cases hruled

end Matcher

end LintRunner
