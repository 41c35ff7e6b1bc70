import LintRunner.Proofs.FileTree.Sound
import LintRunner.Proofs.Pattern.Verdict
import Mathlib.Data.List.Induction

/-! What releasing does to rules. Only patterns that ignore are dropped, so nothing is ignored that was
not before. What is taken in for it is limited where patterns reach downward: a pattern dropped because
it ignores a directory was overruled there if the directory is not ignored, and what overruled it
there overrules it below. -/

namespace LintRunner

/-- A pattern that matches a directory matches all that can lie below it. -/
def Pattern.DownwardClosed (q : Pattern) : Prop :=
  ∀ (above below : List String) (isDirectory : Bool), above ≠ [] → below ≠ [] →
    (∀ name ∈ below, FileTree.IsEntryName name) →
    q.covers (IgnoreFile.subject ⟨.relative, above⟩ true) = true →
      q.covers (IgnoreFile.subject ⟨.relative, above ++ below⟩ isDirectory) = true

variable {p d : Path} {rules lower higher : List IgnoreFile} {f : IgnoreFile} {isDirectory b : Bool}
  {names : List String}

/-- What the file of highest precedence says that speaks of `p`. -/
def spoken (p : Path) (rules : List IgnoreFile) (isDirectory : Bool) : Option Bool :=
  rules.reverse.findSome? (·.decide p isDirectory)

theorem isIgnored_eq_spoken : isIgnored p rules isDirectory = (spoken p rules isDirectory).getD false :=
  rfl

theorem spoken_append : spoken p (lower ++ higher) isDirectory =
    (spoken p higher isDirectory).or (spoken p lower isDirectory) := by
  rw [spoken, List.reverse_append, List.findSome?_append]
  rfl

theorem spoken_singleton : spoken p [f] isDirectory = f.decide p isDirectory := by
  cases hf : f.decide p isDirectory <;> simp [spoken, hf]

theorem spoken_eq_some_iff : spoken p rules isDirectory = some b ↔
    ∃ lower f higher, rules = lower ++ f :: higher ∧ f.decide p isDirectory = some b ∧
      ∀ g ∈ higher, g.decide p isDirectory = none := by
  rw [spoken, List.findSome?_eq_some_iff]
  constructor
  · rintro ⟨front, f, back, heq, hf, hfront⟩
    exact ⟨back.reverse, f, front.reverse, by simpa using congrArg List.reverse heq, hf, by simpa using hfront⟩
  · rintro ⟨lower, f, higher, rfl, hf, hhigher⟩
    exact ⟨higher.reverse, f, lower.reverse, by simp, hf, by simpa using hhigher⟩

theorem isIgnored_append : isIgnored p (lower ++ higher) isDirectory =
    (spoken p higher isDirectory).getD (isIgnored p lower isDirectory) := by
  rw [isIgnored_eq_spoken, spoken_append]
  cases spoken p higher isDirectory <;> rfl

/-- Rules named twice in a row say nothing new. -/
theorem spoken_twice (again : List IgnoreFile) :
    spoken p (lower ++ again ++ again ++ higher) isDirectory =
      spoken p (lower ++ again ++ higher) isDirectory := by
  simp only [spoken_append]
  cases spoken p higher isDirectory <;> cases spoken p again isDirectory <;> rfl

namespace IgnoreFile

open Pattern

variable {q : Pattern} {ps : List Pattern} {s : List Char} {start : Path}

theorem decide_down : f.decide (f.directory.down names) isDirectory =
    verdictOf f.patterns (subject ⟨.relative, names⟩ isDirectory) := by
  rw [decide, Path.relativeTo?_down]

theorem decide_ne_none (hq : q ∈ f.patterns)
    (hcovers : q.covers (subject ⟨.relative, names⟩ isDirectory) = true) :
    f.decide (f.directory.down names) isDirectory ≠ none := by
  rw [decide_down]
  intro hnone
  rw [verdictOf_eq_none_iff.1 hnone q hq] at hcovers
  cases hcovers

theorem mem_ancestors {above : List Char} : above ∈ f.ancestors start ↔
    ∃ names rest, names ≠ [] ∧ start = f.directory.down (names ++ rest) ∧
      above = subject ⟨.relative, names⟩ true := by
  simp only [ancestors, List.mem_filterMap, List.mem_filter, List.mem_cons, List.contains_iff_mem,
    Path.mem_parents, Option.map_eq_some_iff]
  constructor
  · rintro ⟨a, ⟨hstart, names, hne, rfl⟩, below, hbelow, rfl⟩
    rw [Path.relativeTo?_down] at hbelow
    cases hbelow
    rcases hstart with heq | ⟨rest, -, rfl⟩
    · exact ⟨names, [], hne, by simp [heq], rfl⟩
    · exact ⟨names, rest, hne, by simp, rfl⟩
  · rintro ⟨names, rest, hne, rfl, rfl⟩
    refine ⟨f.directory.down names, ⟨?_, names, hne, rfl⟩, _, Path.relativeTo?_down _ _, rfl⟩
    by_cases hrest : rest = []
    · exact .inl (by simp [hrest])
    · exact .inr ⟨rest, hrest, by simp⟩

/-- A pattern is dropped if it ignores a directory on the way to `start`. -/
theorem keeps_eq_false_iff : f.keeps start q = false ↔ q.positive = true ∧
    ∃ above rest, above ≠ [] ∧ start = f.directory.down (above ++ rest) ∧
      q.covers (subject ⟨.relative, above⟩ true) = true := by
  simp only [keeps, ignoresAny, Bool.not_eq_false', Bool.and_eq_true, List.any_eq_true, mem_ancestors]
  refine and_congr_right fun _ => ⟨?_, ?_⟩
  · rintro ⟨text, ⟨names, rest, hne, hstart, rfl⟩, hcovers⟩
    exact ⟨names, rest, hne, hstart, hcovers⟩
  · rintro ⟨names, rest, hne, hstart, hcovers⟩
    exact ⟨_, ⟨names, rest, hne, hstart, rfl⟩, hcovers⟩

theorem keeps_of_negative (hq : q.positive = false) : f.keeps start q = true := by
  simp [keeps, ignoresAny, hq]

theorem keeps_of_keeps_down (hq : f.keeps (start.down names) q = true) : f.keeps start q = true := by
  by_contra hno
  rw [Bool.not_eq_true] at hno
  obtain ⟨hpos, above, rest, hne, rfl, hcovers⟩ := keeps_eq_false_iff.1 hno
  have hdrop : f.keeps ((f.directory.down (above ++ rest)).down names) q = false :=
    keeps_eq_false_iff.2 ⟨hpos, above, rest ++ names, hne, by simp, hcovers⟩
  rw [hq] at hdrop
  cases hdrop

/-- What is released for a directory and then for one below is released for that. -/
theorem released_released (f : IgnoreFile) (start : Path) (names : List String) :
    (f.released start).released (start.down names) = f.released (start.down names) := by
  have hfilter : (f.patterns.filter (f.keeps start)).filter (f.keeps (start.down names)) =
      f.patterns.filter (f.keeps (start.down names)) := by
    rw [List.filter_filter]
    refine List.filter_congr fun q _ => ?_
    cases hq : f.keeps (start.down names) q with
    | false => rfl
    | true =>
      rw [keeps_of_keeps_down hq]
      rfl
  exact congrArg (fun ps => { f with patterns := ps }) hfilter

theorem verdictOf_filter {keep : Pattern → Bool} (hkeep : ∀ q, q.positive = false → keep q = true)
    (hps : verdictOf ps s ≠ some true) : verdictOf (ps.filter keep) s = verdictOf ps s := by
  induction ps with
  | nil => rfl
  | cons q ps ih =>
    rw [verdictOf_cons] at hps ⊢
    have hrest : verdictOf (ps.filter keep) s = verdictOf ps s :=
      ih fun htrue => hps (by rw [htrue]; rfl)
    cases hq : keep q with
    | true => rw [List.filter_cons_of_pos hq, verdictOf_cons, hrest]
    | false =>
      rw [List.filter_cons_of_neg (by simp [hq]), hrest]
      cases hv : verdictOf ps s with
      | some v => rfl
      | none =>
        have hpos : q.positive = true := by
          by_contra hno
          rw [hkeep q (by simpa using hno)] at hq
          cases hq
        rw [hv, hpos, Option.none_or] at hps
        rw [Option.none_or]
        split
        · next hcovers => exact absurd (if_pos hcovers) hps
        · rfl

theorem decide_released (hp : f.decide p isDirectory ≠ some true) :
    (f.released start).decide p isDirectory = f.decide p isDirectory := by
  have hdirectory : (f.released start).directory = f.directory := rfl
  have hpatterns : (f.released start).patterns = f.patterns.filter (f.keeps start) := rfl
  unfold decide at hp ⊢
  rw [hdirectory, hpatterns]
  cases hbelow : p.relativeTo? f.directory with
  | none => rfl
  | some below =>
    rw [hbelow] at hp
    exact verdictOf_filter (fun q => keeps_of_negative) hp

theorem spoken_released (hp : spoken p rules isDirectory ≠ some true) :
    spoken p (rules.map (·.released start)) isDirectory = spoken p rules isDirectory := by
  induction rules using List.reverseRecOn with
  | nil => rfl
  | append_singleton lower f ih =>
    rw [List.map_append, List.map_singleton, spoken_append, spoken_append, spoken_singleton,
      spoken_singleton]
    rw [spoken_append, spoken_singleton] at hp
    have hf : f.decide p isDirectory ≠ some true := fun htrue => hp (by rw [htrue]; rfl)
    rw [decide_released hf]
    cases hv : f.decide p isDirectory with
    | some v => rfl
    | none =>
      rw [hv, Option.none_or] at hp
      exact ih hp

/-- Released rules ignore no more than before. -/
theorem isIgnored_released (hp : isIgnored p rules isDirectory = false) :
    isIgnored p (rules.map (·.released start)) isDirectory = false := by
  rw [isIgnored_eq_spoken] at hp ⊢
  rw [spoken_released]
  · exact hp
  · intro htrue
    rw [htrue] at hp
    cases hp

/-- The file with these patterns instead of its own. -/
def keeping (f : IgnoreFile) (ps : List Pattern) : IgnoreFile := { f with patterns := ps }

variable {earlier later : List Pattern} {above : List String}

theorem decide_keeping (f : IgnoreFile) (ps : List Pattern) (names : List String)
    (isDirectory : Bool) : (f.keeping ps).decide (f.directory.down names) isDirectory =
      verdictOf ps (subject ⟨.relative, names⟩ isDirectory) :=
  decide_down (f := f.keeping ps)

theorem decide_of_later_silent (hf : f.patterns = earlier ++ q :: later) (hq : q.positive = true)
    (hcovers : q.covers (subject ⟨.relative, names⟩ isDirectory) = true)
    (hlater : (f.keeping later).decide (f.directory.down names) isDirectory = none) :
    f.decide (f.directory.down names) isDirectory = some true := by
  rw [decide_keeping] at hlater
  rw [decide_down, hf, verdictOf_append, verdictOf_cons, hlater, if_pos hcovers, hq]
  rfl

theorem eq_down_of_decide (hf : f.decide p isDirectory = some b) :
    ∃ names, p = f.directory.down names := by
  unfold decide at hf
  split at hf
  · cases hf
  · next below hbelow => exact ⟨_, (Path.relativeTo?_eq_some_iff_down.1 hbelow).2⟩

theorem isIgnored_eq_true_iff :
    isIgnored p rules isDirectory = true ↔ spoken p rules isDirectory = some true := by
  rw [isIgnored_eq_spoken]
  cases spoken p rules isDirectory <;> simp

/-- Where released rules take in what was ignored, a pattern that ignored it was dropped, and nothing
after it speaks of the path. -/
theorem exists_dropped (hp : isIgnored p rules isDirectory = true)
    (hreleased : isIgnored p (rules.map (·.released start)) isDirectory = false) :
    ∃ lower f higher earlier q later, rules = lower ++ f :: higher ∧
      f.patterns = earlier ++ q :: later ∧ f.keeps start q = false ∧
      ∀ g ∈ f.keeping later :: higher, g.decide p isDirectory = none := by
  obtain ⟨lower, f, higher, rfl, hf, hhigher⟩ := spoken_eq_some_iff.1 (isIgnored_eq_true_iff.1 hp)
  obtain ⟨names, rfl⟩ := eq_down_of_decide hf
  rw [decide_down] at hf
  obtain ⟨q, ⟨earlier, later, hpatterns, hcovers, hlater⟩, hpos⟩ := verdictOf_eq_some_iff.1 hf
  have hsilent := verdictOf_eq_none_iff.2 hlater
  refine ⟨lower, f, higher, earlier, q, later, rfl, hpatterns, ?_,
    List.forall_mem_cons.2 ⟨by rwa [decide_keeping], hhigher⟩⟩
  by_contra hkeeps
  rw [Bool.not_eq_false] at hkeeps
  -- a pattern that is kept still speaks where it did, and still nothing after it
  have hkept : (f.released start).patterns =
      earlier.filter (f.keeps start) ++ q :: later.filter (f.keeps start) := by
    simp [released, hpatterns, hkeeps]
  have hlast : (f.released start).decide (f.directory.down names) isDirectory = some true := by
    refine decide_of_later_silent hkept hpos hcovers ?_
    rw [decide_keeping, verdictOf_filter (fun q => keeps_of_negative) (by simp [hsilent]), hsilent]
  have hspeaks : spoken (f.directory.down names) ((lower ++ f :: higher).map (·.released start))
      isDirectory = some true := by
    refine spoken_eq_some_iff.2 ⟨lower.map (·.released start), f.released start,
      higher.map (·.released start), by simp, hlast, ?_⟩
    intro g hg
    obtain ⟨g, hmem, rfl⟩ := List.mem_map.1 hg
    rw [decide_released (by simp [hhigher g hmem]), hhigher g hmem]
  rw [isIgnored_eq_true_iff.2 hspeaks] at hreleased
  cases hreleased

/-- What speaks of a directory speaks of all below it. -/
theorem decide_down_ne_none (hclosed : ∀ q ∈ f.patterns, q.DownwardClosed) (habove : above ≠ [])
    (hnames : names ≠ []) (hentry : ∀ name ∈ names, FileTree.IsEntryName name)
    (ha : f.decide (f.directory.down above) true ≠ none) :
    f.decide ((f.directory.down above).down names) isDirectory ≠ none := by
  rw [decide_down, ne_eq, verdictOf_eq_none_iff] at ha
  simp only [not_forall, Bool.not_eq_false] at ha
  obtain ⟨q, hq, hcovers⟩ := ha
  rw [Path.down_down]
  exact decide_ne_none hq (hclosed q hq above names isDirectory habove hnames hentry hcovers)

/-- A pattern that ignores a directory which is not ignored has been overruled, and what overruled it
speaks of all below the directory. -/
theorem exists_speaks_after (hf : f.patterns = earlier ++ q :: later) (hq : q.positive = true)
    (hcovers : q.covers (subject ⟨.relative, above⟩ true) = true) (habove : above ≠ [])
    (ha : isIgnored (f.directory.down above) (lower ++ f :: higher) true = false)
    (hclosed : ∀ g ∈ f :: higher, ∀ q ∈ g.patterns, q.DownwardClosed)
    (hdirectories : ∀ g ∈ higher, ∃ way, way ≠ [] ∧ f.directory.down above = g.directory.down way)
    (hnames : names ≠ []) (hentry : ∀ name ∈ names, FileTree.IsEntryName name) :
    ∃ g ∈ f.keeping later :: higher,
      g.decide ((f.directory.down above).down names) isDirectory ≠ none := by
  by_contra hno
  simp only [not_exists, not_and, not_not, List.forall_mem_cons] at hno hclosed
  have hlater : (f.keeping later).decide (f.directory.down above) true = none := by
    by_contra hspeaks
    refine decide_down_ne_none (f := f.keeping later) ?_ habove hnames hentry hspeaks hno.1
    exact fun q hq => hclosed.1 q (hf ▸ List.mem_append_right _ (List.mem_cons_of_mem _ hq))
  have hhigher : ∀ g ∈ higher, g.decide (f.directory.down above) true = none := by
    intro g hg
    by_contra hspeaks
    obtain ⟨way, hway, heq⟩ := hdirectories g hg
    have hsilent := hno.2 g hg
    rw [heq] at hspeaks hsilent
    exact decide_down_ne_none (hclosed.2 g hg) hway hnames hentry hspeaks hsilent
  have hignored := isIgnored_eq_true_iff.2 (spoken_eq_some_iff.2
    ⟨lower, f, higher, rfl, decide_of_later_silent hf hq hcovers hlater, hhigher⟩)
  rw [ha] at hignored
  cases hignored

end IgnoreFile

end LintRunner
