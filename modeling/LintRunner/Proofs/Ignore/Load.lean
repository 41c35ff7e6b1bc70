import LintRunner.Proofs.Ignore.Force
import LintRunner.Proofs.Pattern.Bracket
import LintRunner.Script

/-! Texts read as patterns, line after line. A line is a pattern, or malformed, or it holds a set that
no regular expression has. A list with a malformed line in it is refused on account of the first one,
and an ignore file is read without them; for the sets nothing is prepared. -/

namespace LintRunner

open Run IgnoreFile

variable {σ : Type} {h : Host σ} {w : World σ} {source directory root : Path} {line : String}
  {lines : List String}

namespace Pattern

/-- The line is a pattern, be it one that matches nothing. -/
def Compiles (line : String) : Prop := ∃ p, read line = .ok p

instance : DecidablePred Compiles := fun line =>
  match hp : read line with
  | .ok p => isTrue ⟨p, hp⟩
  | .error e => isFalse fun ⟨p, hok⟩ => by cases hp.symm.trans hok

/-- What a list is refused with on account of the line. -/
def refusal (line : String) : Failure :=
  if Readable line then .config (.badPattern line) else .crash .badSet

/-- The line is one of three things, by what is read. -/
theorem read_cases (line : String) :
    (∃ p, read line = .ok p ∧ Compiles line ∧ Readable line) ∨
    (read line = .error .malformed ∧ ¬ Compiles line ∧ Readable line) ∨
    ∃ lo hi position, hi < lo ∧ read line = .error (.badSet (.flaw (.badRange
      (String.ofList (Regex.spelled lo)) (String.ofList (Regex.spelled hi))) position)) ∧
      ¬ Compiles line ∧ ¬ Readable line := by
  rcases hp : read line with e | p
  · have hno : ¬ Compiles line := fun ⟨p, hok⟩ => by cases hp.symm.trans hok
    cases e with
    | malformed => exact .inr (.inl ⟨rfl, hno, fun e he => by cases hp.symm.trans he⟩)
    | badSet e =>
      obtain ⟨lo, hi, position, hback, he⟩ := backwards_of_read hp
      cases he
      exact .inr (.inr ⟨lo, hi, position, hback, rfl, hno, fun hline => hline _ hp⟩)
  · exact .inl ⟨p, rfl, ⟨p, hp⟩, fun e he => by cases hp.symm.trans he⟩

theorem patternsOf_cons_of_not_compiles (hline : ¬ Compiles line) :
    patternsOf (line :: lines) = patternsOf lines := by
  cases hp : read line with
  | error e => simp [patternsOf, hp, Except.toOption]
  | ok p => exact absurd ⟨p, hp⟩ hline

theorem patternsOf_cons_of_read {p : Pattern} (hp : read line = .ok p) :
    patternsOf (line :: lines) = p :: patternsOf lines := by
  simp [patternsOf, hp, Except.toOption]

/-- The patterns of a text are its lines that compile. -/
theorem line_patternsOf (lines : List String) :
    (patternsOf lines).map (·.line) = lines.filter Compiles := by
  induction lines with
  | nil => rfl
  | cons line rest ih =>
    by_cases hline : Compiles line
    · rw [List.filter_cons_of_pos (by simpa using hline)]
      obtain ⟨p, hp⟩ := hline
      rw [patternsOf_cons_of_read hp, List.map_cons, ih, line_of_read hp]
    · rw [patternsOf_cons_of_not_compiles hline, ih, List.filter_cons_of_neg (by simpa using hline)]

/-- The first line that does not compile decides. -/
theorem readAll_eq (lines : List String) : (readAll lines).mapError Failure.ofBadLine =
    match lines.find? (¬ Compiles ·) with
    | none => .ok (patternsOf lines)
    | some line => .error (refusal line) := by
  induction lines with
  | nil => rfl
  | cons line rest ih =>
    unfold readAll
    rcases read_cases line with ⟨p, hp, hyes, -⟩ | ⟨hp, hno, hreadable⟩ | ⟨lo, hi, _, -, hp, hno, hset⟩
    · rw [List.find?_cons_of_neg (by simpa using hyes), patternsOf_cons_of_read hp]
      simp only [hp]
      -- the answer of the rest, with one pattern more where there are patterns
      have hmore : ((readAll rest).map (p :: ·)).mapError Failure.ofBadLine =
          ((readAll rest).mapError Failure.ofBadLine).map (p :: ·) := by
        cases readAll rest <;> rfl
      rw [hmore, ih]
      cases rest.find? (¬ Compiles ·) <;> rfl
    · rw [List.find?_cons_of_pos (by simpa using hno)]
      simp [hp, refusal, hreadable, Failure.ofBadLine]
    · rw [List.find?_cons_of_pos (by simpa using hno)]
      simp [hp, refusal, hset, Failure.ofBadLine, Failure.ofReadError]

end Pattern

open Pattern

namespace IgnoreFile

/-- Said of a line that is left out. -/
def skipped (source : Path) (line : String) : Event :=
  .logged .warning ("Skipping invalid pattern " ++ Text.quoted line ++ " in " ++ source.text
    ++ ": " ++ malformedReason line)

/-- Said of a file that cannot be read. -/
def unreadable (source : Path) (e : Errno) : Event :=
  .logged .warning ("Could not read ignore file " ++ source.text ++ ": " ++
    (OsError.mk e source.text).message)

/-- The lines that are left out, up to the one that ends the reading. -/
def leftOut (lines : List String) : List String :=
  (lines.takeWhile Readable).filter (¬ Compiles ·)

/-- The rules that the lines make; none if no line holds a pattern. -/
def rulesOf? (source directory : Path) (lines : List String) : Option IgnoreFile :=
  if (patternsOf lines).any isActive then some ⟨directory, source, patternsOf lines⟩ else none

theorem go_warning (message : String) (h : Host σ) (w : World σ) :
    (log .warning message).go h w = (.ok (), w.record (.logged .warning message)) := by
  rw [log, go_change]
  cases w.verbosity <;> rfl

theorem go_readLines (source : Path) (lines : List String) (h : Host σ) (w : World σ) :
    (readLines source lines).go h w =
      (if ∀ line ∈ lines, Readable line then .ok (patternsOf lines) else .error (.crash .badSet),
        ((leftOut lines).map (skipped source)).foldl World.record w) := by
  induction lines generalizing w with
  | nil => rfl
  | cons line rest ih =>
    unfold readLines
    rcases read_cases line with ⟨p, hp, hyes, hreadable⟩ | ⟨hp, hno, hreadable⟩ |
      ⟨lo, hi, _, -, hp, hno, hset⟩
    · have hleft : leftOut (line :: rest) = leftOut rest := by simp [leftOut, hreadable, hyes]
      simp only [hp, go_bind, ih, hleft, patternsOf_cons_of_read hp, List.forall_mem_cons, hreadable,
        true_and]
      by_cases hrest : ∀ line ∈ rest, Readable line
      · simp only [if_pos hrest]
        rfl
      · simp only [if_neg hrest]
    · have hleft : leftOut (line :: rest) = line :: leftOut rest := by simp [leftOut, hreadable, hno]
      simp only [hp, hleft, patternsOf_cons_of_not_compiles hno, List.forall_mem_cons, hreadable,
        true_and]
      rw [go_bind_ok (go_warning _ h w), ih]
      rfl
    · have hleft : leftOut (line :: rest) = [] := by simp [leftOut, hset]
      simp [hp, hleft, hset, Failure.ofReadError]

/-- What is in the file decides, and all that changes is what has been said. -/
theorem go_load (source directory : Path) (h : Host σ) (w : World σ) :
    (load source directory).go h w = match w.tree.bytesAt h.cwd source with
      | .error .nul => (.error (.crash .nulInPath), w)
      | .error (.errno e) => (.ok none, w.record (unreadable source e))
      | .ok bytes =>
        (if ∀ line ∈ textOf bytes, Readable line then .ok (rulesOf? source directory (textOf bytes))
          else .error (.crash .badSet),
        ((leftOut (textOf bytes)).map (skipped source)).foldl World.record w) := by
  have hask : (attempt (bytesAt source)).go h w =
      (.ok ((w.tree.bytesAt h.cwd source).mapError (Failure.ofRefusal source)), w) := by
    rw [go_attempt, bytesAt, askTree, go_bind_ok (go_tree h w), go_bind_ok (go_here h w), go_ofExcept]
  unfold load
  rw [go_bind_ok hask]
  rcases w.tree.bytesAt h.cwd source with (e | _) | bytes
  · exact go_bind_ok (go_warning _ h w) _
  · rfl
  · simp only [mapError_ok]
    rw [go_bind, go_readLines]
    by_cases hall : ∀ line ∈ textOf bytes, Readable line
    · simp only [if_pos hall]
      rfl
    · simp only [if_neg hall]

end IgnoreFile

theorem Matcher.compile_eq (root : Path) (lines : List String) :
    (Matcher.compile root lines).mapError Failure.ofBadLine =
      match lines.find? (¬ Compiles ·) with
      | none => .ok ⟨root, patternsOf lines⟩
      | some line => .error (refusal line) := by
  have hwhole : (Matcher.compile root lines).mapError Failure.ofBadLine =
      ((readAll lines).mapError Failure.ofBadLine).map (⟨root, ·⟩) := by
    unfold Matcher.compile
    cases readAll lines <;> rfl
  rw [hwhole, readAll_eq]
  cases lines.find? (¬ Compiles ·) <;> rfl

/-- A list of lines becomes a matcher, or the first line that does not compile ends it; a file becomes
the rules of its lines that compile, with a warning for each that does not. In both, a set with a
range that runs backwards is not taken for a malformed line: it ends what is done. -/
theorem pattern_texts_judged (root : Path) (lines : List String) (source directory : Path) (h : Host σ)
    (w : World σ) :
    ((Matcher.compile root lines).mapError Failure.ofBadLine =
      match lines.find? (¬ Compiles ·) with
      | none => .ok ⟨root, patternsOf lines⟩
      | some line => .error (if Readable line then .config (.badPattern line) else .crash .badSet)) ∧
    ((load source directory).go h w = match w.tree.bytesAt h.cwd source with
      | .error .nul => (.error (.crash .nulInPath), w)
      | .error (.errno e) => (.ok none, w.record (unreadable source e))
      | .ok bytes =>
        (if ∀ line ∈ textOf bytes, Readable line then .ok (rulesOf? source directory (textOf bytes))
          else .error (.crash .badSet),
        ((leftOut (textOf bytes)).map (skipped source)).foldl World.record w)) ∧
    (∀ text : List String, (patternsOf text).map (·.line) = text.filter Compiles) ∧
    ∀ line, ¬ Readable line → ∃ lo hi position, hi < lo ∧ read line = .error (.badSet (.flaw
      (.badRange (String.ofList (Regex.spelled lo)) (String.ofList (Regex.spelled hi))) position)) := by
  refine ⟨Matcher.compile_eq root lines, go_load source directory h w, line_patternsOf, ?_⟩
  intro line hline
  rcases read_cases line with ⟨_, _, _, hreadable⟩ | ⟨_, _, hreadable⟩ | ⟨lo, hi, i, hback, hp, -, -⟩
  · exact absurd hreadable hline
  · exact absurd hreadable hline
  · exact ⟨lo, hi, i, hback, hp⟩

/-- A line without a pattern, one with a pattern, and one with a set that there is not. -/
def Sample.unruly : World Script :=
  ⟨⟨[(["p"], .directory), (["p", ".ignore"], .file "!\n*.log\n[z-a]\n".toUTF8 false)]⟩, {}, [], {},
    .warning⟩

open Sample in
/-- A range that runs backwards ends both, whatever else there is to read. -/
theorem not_pattern_texts_judged :
    (¬ ∀ (root : Path) (lines : List String), (∃ m, Matcher.compile root lines = .ok m) ∨
      ∃ line, lines.find? (¬ Compiles ·) = some line ∧
        (Matcher.compile root lines).mapError Failure.ofBadLine =
          .error (.config (.badPattern line))) ∧
    ¬ ∀ (source directory : Path) (h : Host Script) (w : World Script) (bytes : ByteArray),
      w.tree.bytesAt h.cwd source = .ok bytes →
      ∃ rules w', (load source directory).go h w = (.ok rules, w') := by
  constructor
  · intro hall
    have hline : ["[z-a]"].find? (¬ Compiles ·) = some "[z-a]" := by decide +kernel
    have hset : ¬ Readable "[z-a]" := by decide +kernel
    have hends := Matcher.compile_eq .here ["[z-a]"]
    simp only [hline, refusal, if_neg hset] at hends
    rcases hall .here ["[z-a]"] with ⟨m, hm⟩ | ⟨line, -, hrefused⟩
    · rw [hm] at hends
      cases hends
    · cases hends.symm.trans hrefused
  · intro hall
    have hbytes : unruly.tree.bytesAt [] ⟨.root, ["p", ".ignore"]⟩ =
        .ok "!\n*.log\n[z-a]\n".toUTF8 := by decide +kernel
    have hset : ¬ ∀ line ∈ textOf "!\n*.log\n[z-a]\n".toUTF8, Readable line := by decide +kernel
    obtain ⟨rules, w', hload⟩ := hall ⟨.root, ["p", ".ignore"]⟩ ⟨.root, ["p"]⟩
      (Script.host [] [] false false) unruly _ hbytes
    rw [go_load] at hload
    simp only [show (Script.host [] [] false false).cwd = [] from rfl, hbytes, if_neg hset] at hload
    cases hload

end LintRunner
