import LintRunner.Proofs.Selection.Listing

/-! What is chosen of the entries that git reports: each path of the project that one of them leads to
and that is not excluded, in order and once. An entry that leads nowhere or out of the project makes no
difference to the others; but one whose name is too long to be asked for ends the choice. -/

namespace LintRunner

open Run World

variable {σ : Type} {h : Host σ} {w w' : World σ} {s : Selector} {top q : Path} {out entry : String}

namespace Selector

/-- The entry leads from the top of the repository to something that is there, and that by its name is
the project's `q`, which is not excluded. -/
structure Reports (s : Selector) (t : FileTree) (here : Location) (top : Path) (entry : String) (q : Path) :
    Prop where
  there : t.exists? here (top / Path.ofString entry) = .ok true
  relative : q.anchor = .relative
  named : (top / Path.ofString entry).normalize = s.root / q
  kept : s.excluder.covers q false = false

/-- What satisfies `P`, in order and each once; nothing at all rather than an empty list. -/
def ListsJust (P : Path → Prop) : Option (List Path) → Prop
  | none => ∀ q, ¬ P q
  | some files => files ≠ [] ∧ Path.Ascending files ∧ ∀ q, q ∈ files ↔ P q

/-- A name on the way to the entry is longer than any can be. -/
def TooLong (t : FileTree) (here : Location) (top : Path) (entry : String) : Prop :=
  t.exists? here (top / Path.ofString entry) = .error (.errno .nameTooLong)

/-- From an absolute top it does not matter where paths given by the user start. -/
theorem takes_iff_reports {t : FileTree} {here : Location} (htop : top.isAbsolute = true) :
    s.Takes t here top entry q ↔ s.Reports t here top entry q := by
  have hjoin : s.cwd / (top / Path.ofString entry) = top / Path.ofString entry :=
    if_pos (Path.isAbsolute_join htop _)
  have hinside : s.relativeToRoot? (top / Path.ofString entry) = .ok q ↔
      q.anchor = .relative ∧ (top / Path.ofString entry).normalize = s.root / q := by
    rw [relativeToRoot?, hjoin]
    constructor
    · intro hok
      split at hok
      · next hway =>
        cases hok
        obtain ⟨hrel, heq⟩ := Path.relativeTo?_eq_some_iff.1 hway
        exact ⟨hrel, by rw [heq, Path.join_of_relative hrel]⟩
      · cases hok
    · rintro ⟨hrel, heq⟩
      have hway : (top / Path.ofString entry).normalize.relativeTo? s.root = some q :=
        Path.relativeTo?_eq_some_iff.2 ⟨hrel, by rw [heq, Path.join_of_relative hrel]⟩
      rw [hway]
  constructor
  · rintro ⟨hthere, hok, hkept⟩
    obtain ⟨hrel, hnamed⟩ := hinside.1 hok
    exact ⟨hthere, hrel, hnamed, hkept⟩
  · rintro ⟨hthere, hrel, hnamed, hkept⟩
    exact ⟨hthere, hinside.2 ⟨hrel, hnamed⟩, hkept⟩

theorem exists_answer_of_not_tooLong {t : FileTree} {here : Location}
    (hno : ¬ TooLong t here top entry) : ∃ b, t.exists? here (top / Path.ofString entry) = .ok b := by
  cases hasked : t.exists? here (top / Path.ofString entry) with
  | ok b => exact ⟨b, rfl⟩
  | error r =>
    obtain rfl := FileTree.tooLong_of_inquire hasked
    exact absurd hasked hno

theorem go_fileReported_of_tooLong (hlong : TooLong w.tree h.cwd top entry) :
    (s.fileReported top entry).go h w =
      (.error (.os ⟨.nameTooLong, (top / Path.ofString entry).text⟩), w) := by
  have hasked : (exists? (top / Path.ofString entry)).go h w =
      (.error (.os ⟨.nameTooLong, (top / Path.ofString entry).text⟩), w) := by
    rw [exists?, go_askTree, hlong]
    rfl
  exact go_bind_error hasked _

/-- The first of the entries that cannot be asked for ends it. -/
theorem go_mapM_of_tooLong {entries : List String}
    (hlong : ∃ entry ∈ entries, TooLong w.tree h.cwd top entry) :
    ∃ entry ∈ entries, TooLong w.tree h.cwd top entry ∧ ∃ w',
      (entries.mapM (s.fileReported top)).go h w =
        (.error (.os ⟨.nameTooLong, (top / Path.ofString entry).text⟩), w') := by
  induction entries generalizing w with
  | nil => simp at hlong
  | cons first rest ih =>
    rw [List.mapM_cons]
    by_cases hfirst : TooLong w.tree h.cwd top first
    · exact ⟨first, by simp, hfirst, w, go_bind_error (go_fileReported_of_tooLong hfirst) _⟩
    · obtain ⟨b, hb⟩ := exists_answer_of_not_tooLong hfirst
      obtain ⟨w₁, hgo, hw₁⟩ := finds_fileReported (s := s) hb w rfl
      obtain ⟨entry, hentry, hentry_long⟩ := hlong
      have hrest : entry ∈ rest := by
        rcases List.mem_cons.1 hentry with rfl | hrest
        · exact absurd hentry_long hfirst
        · exact hrest
      obtain ⟨last, hlast, hlast_long, w₂, hfails⟩ := ih (w := w₁) ⟨entry, hrest, by rwa [hw₁.tree]⟩
      rw [hw₁.tree] at hlast_long
      exact ⟨last, by simp [hlast], hlast_long, w₂, by rw [go_bind_ok hgo, go_bind_error hfails]⟩

theorem go_select_of_tooLong (hgit : s.mode.usesGit = true) (hanswered : s.Answered h w out top w')
    (hlong : ∃ entry ∈ Git.linesOf out, TooLong w'.tree h.cwd top entry) :
    ∃ entry ∈ Git.linesOf out, TooLong w'.tree h.cwd top entry ∧
      ((s.select []).go h w).1 = .error (.os ⟨.nameTooLong, (top / Path.ofString entry).text⟩) := by
  obtain ⟨w₁, hchanges, htop⟩ := hanswered
  obtain ⟨entry, hentry, htooLong, w₂, hfails⟩ := go_mapM_of_tooLong (s := s) hlong
  refine ⟨entry, hentry, htooLong, ?_⟩
  have hcandidates : (do Run.debug ("Selecting " ++ s.mode.describe); s.candidates []).go h w =
      (.error (.os ⟨.nameTooLong, (top / Path.ofString entry).text⟩), w₂) := by
    rw [go_candidates_of_changes hgit hchanges, filesReported, go_bind_ok htop]
    exact go_bind_error hfails _
  obtain ⟨w₀, hdebug, -⟩ := finds_debug (h := h) ("Selecting " ++ s.mode.describe) w rfl
  rw [go_bind_ok hdebug] at hcandidates
  rw [select, if_neg (by simp), go_bind_ok hdebug, go_bind_error hcandidates]

/-- What is chosen of the entries that git reports is what they lead to in the project, as far as they
can be asked for; if one of them cannot, that is an error. -/
theorem select_reported (hgit : s.mode.usesGit = true) (hw : w.TopResolved)
    (hanswered : s.Answered h w out top w') :
    ((∀ entry ∈ Git.linesOf out, ¬ TooLong w'.tree h.cwd top entry) →
      ∃ chosen w'', (s.select []).go h w = (.ok chosen, w'') ∧
        ListsJust (fun q => ∃ entry ∈ Git.linesOf out, s.Reports w'.tree h.cwd top entry q) chosen) ∧
    ((∃ entry ∈ Git.linesOf out, TooLong w'.tree h.cwd top entry) →
      ∃ entry ∈ Git.linesOf out, TooLong w'.tree h.cwd top entry ∧
        ((s.select []).go h w).1 = .error (.os ⟨.nameTooLong, (top / Path.ofString entry).text⟩)) := by
  refine ⟨fun hshort => ?_, go_select_of_tooLong hgit hanswered⟩
  have htop : top.isAbsolute = true := Path.isAbsolute_of_anchor (hanswered.topResolved hw).1
  obtain ⟨files, w'', hgo, -, hascending, hmem⟩ := go_select_of_answered hgit hanswered
    fun entry hentry => exists_answer_of_not_tooLong (hshort entry hentry)
  have hreports (q : Path) : q ∈ files ↔
      ∃ entry ∈ Git.linesOf out, s.Reports w'.tree h.cwd top entry q := by
    simp only [hmem, takes_iff_reports htop]
  refine ⟨_, w'', hgo, ?_⟩
  split
  · next hempty =>
    intro q hq
    rw [← hreports, hempty] at hq
    cases hq
  · next hne => exact ⟨hne, hascending, hreports⟩

end Selector

namespace Sample

/-- A repository with this answer of git's to what is staged. -/
def reporting (answer : String) : World Script := ⟨tree, { git := [
  { args := ["diff", "--cached", "--name-only", "--diff-filter=ACM"], outcome := .ok answer },
  { args := ["rev-parse", "--show-toplevel"], outcome := .ok "/p\n" }] }, [], {}, .warning⟩

/-- For the project `sub`: a file outside of it, one that is gone, and one of its files twice. -/
def mixed : String := "a.py\nsub/gone.py\nsub/b.py\nsub/../sub/b.py\n"

/-- The name of a file that is gone, of letters that git prints as escapes. -/
def accentedName : String := String.ofList (List.replicate 64 'é')

/-- What is read from git's line for it. -/
def accentedEntry : List Char := '"' :: (List.replicate 64 (Git.escape 'é')).flatten ++ ['"']

theorem entryOf_accentedName : Git.entryOf accentedName = String.ofList accentedEntry := by
  have hletters : accentedName.toList = List.replicate 64 'é' := String.toList_ofList
  have hspecial : accentedName.toList.any Git.isSpecial = true := by
    rw [hletters]
    decide +kernel
  have hprinted : Git.printed accentedName = accentedEntry := by
    have hescapes : (List.replicate 64 'é').flatMap Git.escape =
        (List.replicate 64 (Git.escape 'é')).flatten := by rw [List.flatMap, List.map_replicate]
    rw [Git.printed, if_pos hspecial, hletters, hescapes, accentedEntry]
  have htrimmed : Text.trim accentedEntry = accentedEntry := by decide +kernel
  rw [Git.entryOf, hprinted, htrimmed]

theorem answered_reporting (m : Matcher) (answer : String) : ∃ w',
    (⟨.staged, root, root, m, ⟨root⟩⟩ : Selector).Answered Sample.host (reporting answer) answer root w' ∧
      w'.tree = tree := ⟨_, ⟨_, rfl, rfl⟩, rfl⟩

theorem tooLong_accentedEntry :
    Selector.TooLong tree Sample.host.cwd root (String.ofList accentedEntry) := by
  have hquote (name : String) (hname : name.toList.head? ≠ some '"') :
      String.ofList accentedEntry ≠ name := by
    rintro rfl
    simp [accentedEntry] at hname
  have hslash : '/' ∉ accentedEntry ∧ '\x00' ∉ accentedEntry := by decide +kernel
  have hlong : FileTree.longestName < (String.ofList accentedEntry).utf8ByteSize := by decide +kernel
  have hspelled : Path.Spelled ⟨.relative, [String.ofList accentedEntry]⟩ := by
    intro n hn
    rw [List.mem_singleton.1 hn, String.toList_ofList]
    exact ⟨by simp [Path.isName, hquote "" (by decide), hquote "." (by decide)], hslash.1⟩
  have hread : Path.ofString (String.ofList accentedEntry) = ⟨.relative, [String.ofList accentedEntry]⟩ := by
    simpa [Path.text, Anchor.text] using hspelled.ofString_text
  have hroot : tree.isDirectory? Sample.host.cwd root = .ok true := by decide +kernel
  rw [Selector.TooLong, hread, Path.join_of_relative rfl]
  refine FileTree.exists?_child_tooLong hroot (hquote _ (by decide)) (hquote _ (by decide)) ?_ hlong
  rw [String.toList_ofList]
  exact hslash.2

end Sample

open Sample in
theorem select_reported_mixed : ∃ s w w',
    (Selector.start .staged (root / subFile.parent) none ["*.txt"] none).go Sample.host (reporting mixed) =
      (.ok s, w) ∧ s.mode.usesGit = true ∧ w.TopResolved ∧
    s.Answered Sample.host w mixed root w' ∧
    (∀ entry ∈ Git.linesOf mixed,
      ¬ Selector.TooLong w'.tree Sample.host.cwd root entry) ∧
    ∃ w'', (s.select []).go Sample.host w = (.ok (some [⟨.relative, ["b.py"]⟩]), w'') ∧
      Selector.ListsJust (fun q => ∃ entry ∈ Git.linesOf mixed,
        s.Reports w'.tree Sample.host.cwd root entry q) (some [⟨.relative, ["b.py"]⟩]) := by
  have hruns : (Selector.start .staged (root / subFile.parent) none ["*.txt"] none).comesTo Sample.host
      (reporting mixed) (fun s w => s.changes.comesTo Sample.host w fun out w₁ =>
        s.repositoryRoot.comesTo Sample.host w₁ fun top w' =>
          (s.select []).comesTo Sample.host w fun chosen _ =>
            decide (out = mixed ∧ top = root ∧ s.mode.usesGit = true ∧
              (∀ entry ∈ Git.linesOf mixed, w'.tree.exists? Sample.host.cwd
                (root / Path.ofString entry) ≠ .error (.errno .nameTooLong)) ∧
              chosen = some [⟨.relative, ["b.py"]⟩])) = true := by
    decide +kernel
  obtain ⟨s, w, hstart, hruns⟩ := of_comesTo hruns
  obtain ⟨out, w₁, hchanges, hruns⟩ := of_comesTo hruns
  obtain ⟨top, w', htop, hruns⟩ := of_comesTo hruns
  obtain ⟨chosen, w'', hselect, hruns⟩ := of_comesTo hruns
  obtain ⟨rfl, rfl, hgit, hshort, rfl⟩ := of_decide_eq_true hruns
  have hw := Selector.topResolved_of_start hstart
  have hanswered : s.Answered Sample.host w mixed root w' := ⟨w₁, hchanges, htop⟩
  obtain ⟨chosen, w₃, hgo, hlists⟩ := (Selector.select_reported hgit hw hanswered).1 hshort
  cases hselect.symm.trans hgo
  exact ⟨s, w, w', hstart, hgit, hw, hanswered, hshort, w'', hselect, hlists⟩

open Sample in
/-- A name that is too long keeps the file of another entry from being chosen. -/
theorem not_select_reported : ¬ ∀ (s : Selector) (w w' : World Script) (out : String) (top : Path),
    s.mode.usesGit = true → w.TopResolved → s.Answered Sample.host w out top w' →
    ∃ chosen w'', (s.select []).go Sample.host w = (.ok chosen, w'') ∧ Selector.ListsJust
      (fun q => ∃ entry ∈ Git.linesOf out, s.Reports w'.tree Sample.host.cwd top entry q) chosen := by
  intro hall
  let answer := Git.listing [accentedName, "sub/b.py"]
  have hruns : (Selector.start .staged root none [] none).comesTo Sample.host (reporting answer)
      (fun s _ => decide (s.mode = .staged ∧ s.root = root ∧ s.cwd = root ∧ s.git.cwd = root)) = true := by
    decide +kernel
  obtain ⟨s, w, hstart, hruns⟩ := of_comesTo hruns
  obtain ⟨-, -, -, -, rfl⟩ := Selector.of_start_ok hstart
  obtain ⟨mode, top, cwd, m, git⟩ := s
  obtain ⟨rfl, rfl, rfl, hgit⟩ := of_decide_eq_true hruns
  obtain rfl : git = ⟨root⟩ := congrArg Git.mk hgit
  obtain ⟨w', hanswered, htree⟩ := answered_reporting m answer
  have hlong : ∃ entry ∈ Git.linesOf answer, Selector.TooLong w'.tree Sample.host.cwd root entry := by
    refine ⟨String.ofList accentedEntry, ?_, htree ▸ tooLong_accentedEntry⟩
    exact Git.mem_linesOf_listing.2 ⟨by simp [accentedEntry], accentedName, by simp, entryOf_accentedName⟩
  obtain ⟨chosen, w'', hselect, -⟩ :=
    hall _ (reporting answer) w' answer root rfl (Selector.topResolved_of_start hstart) hanswered
  obtain ⟨entry, -, -, hfails⟩ := Selector.go_select_of_tooLong rfl hanswered hlong
  rw [hselect] at hfails
  cases hfails

end LintRunner
