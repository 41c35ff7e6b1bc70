import LintRunner.Proofs.Ignore.Force
import LintRunner.Proofs.Ignore.Release

/-! Rules that have been released for a directory ignore neither it nor what is above it. Only patterns
that ignore one of these are dropped, and whatever takes back survives, so that nothing comes to be
ignored that was not. -/

namespace LintRunner

open Run

namespace IgnoreFile

variable {f : IgnoreFile} {q : Pattern} {start p : Path} {names : List String}

/-- `p` is `start` or lies above it, and is below the directory that the rules speak of. -/
def OnWay (f : IgnoreFile) (start p : Path) : Prop :=
  (p = start ∨ p ∈ start.parents) ∧ f.directory ∈ p.parents

theorem onWay_iff : f.OnWay start p ↔ ∃ names rest, names ≠ [] ∧ p = f.directory.down names ∧
    start = f.directory.down (names ++ rest) := by
  rw [OnWay, Path.mem_parents, Path.mem_parents]
  constructor
  · rintro ⟨rfl | ⟨rest, -, rfl⟩, names, hne, rfl⟩
    · exact ⟨names, [], hne, rfl, by rw [List.append_nil]⟩
    · exact ⟨names, rest, hne, rfl, Path.down_down _ _ _⟩
  · rintro ⟨names, rest, hne, rfl, rfl⟩
    refine ⟨?_, names, hne, rfl⟩
    by_cases hrest : rest = []
    · exact .inl (by rw [hrest, List.append_nil])
    · exact .inr ⟨rest, hrest, (Path.down_down _ _ _).symm⟩

/-- Were `q` the only pattern, the directory would be ignored. -/
def Ignores (f : IgnoreFile) (q : Pattern) (p : Path) : Prop :=
  (f.keeping [q]).decide p true = some true

theorem ignores_down_iff : f.Ignores q (f.directory.down names) ↔
    q.positive = true ∧ q.covers (subject ⟨.relative, names⟩ true) = true := by
  rw [Ignores, decide_keeping, verdictOf_cons, verdictOf_eq_none_iff.2 (by simp), Option.none_or,
    Option.ite_none_right_eq_some, Option.some.injEq]
  exact and_comm

/-- What is dropped ignores one of the directories. -/
theorem keeps_eq_false_iff_ignores :
    f.keeps start q = false ↔ ∃ p, f.OnWay start p ∧ f.Ignores q p := by
  rw [keeps_eq_false_iff]
  constructor
  · rintro ⟨hpos, names, rest, hne, hstart, hcovers⟩
    exact ⟨_, onWay_iff.2 ⟨names, rest, hne, rfl, hstart⟩, ignores_down_iff.2 ⟨hpos, hcovers⟩⟩
  · rintro ⟨p, hway, hignores⟩
    obtain ⟨names, rest, hne, rfl, hstart⟩ := onWay_iff.1 hway
    obtain ⟨hpos, hcovers⟩ := ignores_down_iff.1 hignores
    exact ⟨hpos, names, rest, hne, hstart, hcovers⟩

theorem keeps_iff_not_ignores :
    f.keeps start q = true ↔ ∀ p, f.OnWay start p → ¬ f.Ignores q p := by
  rw [← Bool.not_eq_false, keeps_eq_false_iff_ignores]
  simp only [not_exists, not_and]

theorem mem_released_iff : q ∈ (f.released start).patterns ↔
    q ∈ f.patterns ∧ ∀ p, f.OnWay start p → ¬ f.Ignores q p := by
  rw [released, List.mem_filter, keeps_iff_not_ignores]

theorem OnWay.not_ignored (hway : f.OnWay start p) : (f.released start).decide p true ≠ some true := by
  intro hignored
  obtain ⟨names, rest, hne, rfl, hstart⟩ := onWay_iff.1 hway
  have hverdict : verdictOf (f.released start).patterns (subject ⟨.relative, names⟩ true) = some true :=
    (decide_down (f := f.released start)).symm.trans hignored
  -- the pattern that decides is one that is kept, and yet it ignores `p`
  obtain ⟨q, ⟨front, back, hpatterns, hcovers, -⟩, hpos⟩ := verdictOf_eq_some_iff.1 hverdict
  have hkept : q ∈ (f.released start).patterns := by simp [hpatterns]
  exact (mem_released_iff.1 hkept).2 _ hway (ignores_down_iff.2 ⟨hpos, hcovers⟩)

theorem filter_negative_released :
    (f.released start).patterns.filter (!·.positive) = f.patterns.filter (!·.positive) := by
  rw [released, List.filter_filter]
  refine List.filter_congr fun q _ => ?_
  cases hpos : q.positive with
  | true => rfl
  | false =>
    rw [keeps_of_negative hpos]
    rfl

/-- Rules against what is left of them for a walk of `start`. -/
structure Frees (start : Path) (f f' : IgnoreFile) : Prop where
  place : f'.directory = f.directory ∧ f'.source = f.source
  /-- Neither the directory nor one above it is ignored any more. -/
  admits : ∀ p, f.OnWay start p → f'.decide p true ≠ some true
  ordered : f'.patterns.Sublist f.patterns
  /-- No pattern that takes back is lost. -/
  negative : f'.patterns.filter (!·.positive) = f.patterns.filter (!·.positive)
  survives_iff : ∀ q ∈ f.patterns, q ∈ f'.patterns ↔ ∀ p, f.OnWay start p → ¬ f.Ignores q p
  unchanged_iff : f' = f ↔ ∀ q ∈ f.patterns, ∀ p, f.OnWay start p → ¬ f.Ignores q p

theorem frees_released (f : IgnoreFile) (start : Path) : Frees start f (f.released start) where
  place := ⟨rfl, rfl⟩
  admits := fun _ hway => hway.not_ignored
  ordered := List.filter_sublist
  negative := filter_negative_released
  survives_iff := fun q hq => by rw [mem_released_iff, and_iff_right hq]
  unchanged_iff := by
    rw [released_eq_self_iff, keepsAll, List.all_eq_true]
    exact forall₂_congr fun q _ => keeps_iff_not_ignores

/-- Nothing is left to be dropped, so nothing is said either. -/
theorem go_release_released {σ : Type} (f : IgnoreFile) (start : Path) (h : Host σ) (w : World σ) :
    ((f.released start).release start).go h w = (.ok (f.released start), w) := by
  have hagain : (f.released start).released start = f.released start := by
    have htwice := released_released f start []
    rwa [Path.down_nil] at htwice
  rw [release, if_pos (released_eq_self_iff.1 hagain)]
  rfl

/-- Releasing only ever takes in. It frees the directory and those above it from the rules of each file,
a second time it changes nothing, and what a list of rules does not ignore it does not ignore after. -/
theorem release_frees {σ : Type} (h : Host σ) (t : FileTree) (start : Path) :
    (∀ f : IgnoreFile, ∃ f', Finds h t (f.release start) f' ∧ Frees start f f' ∧
      ∀ w, (f'.release start).go h w = (.ok f', w)) ∧
    ∀ rules : List IgnoreFile, ∃ rules', Finds h t (rules.mapM (·.release start)) rules' ∧
      ∀ p isDirectory, isIgnored p rules isDirectory = false →
        isIgnored p rules' isDirectory = false := by
  refine ⟨fun f => ?_, fun rules => ?_⟩
  · exact ⟨f.released start, finds_release f start, frees_released f start,
      go_release_released f start h⟩
  · refine ⟨rules.map (·.released start), Finds.mapM fun f _ => finds_release f start, ?_⟩
    exact fun p isDirectory => isIgnored_released

/-- Only `build` is dropped: `*.tmp` ignores what lies below, and `!build` takes back. -/
example : ((Pattern.readAll ["build", "*.tmp", "!build"]).toOption.map fun ps =>
    ((IgnoreFile.mk ⟨.root, ["p"]⟩ .here ps).released ⟨.root, ["p", "build", "deep"]⟩).patterns.map
      (·.line)) = some ["*.tmp", "!build"] := by decide +kernel

end IgnoreFile

end LintRunner
