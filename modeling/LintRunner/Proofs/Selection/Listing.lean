import LintRunner.Proofs.Git.Printed
import LintRunner.Proofs.Pass.Attempts
import LintRunner.Proofs.Path.Read
import LintRunner.Proofs.Selection.Standing

/-! From what git lists to what is chosen. The lines are taken for names as they stand, so a name that
git prints as it is and that no blank begins or ends is found; one between quotes is looked for with
its quotes, and missed. -/

namespace LintRunner

open Run World

variable {σ : Type} {h : Host σ} {w w' : World σ} {s : Selector} {top q : Path} {names : List String}

namespace Selection

/-- What git is asked for the files of a mode; nothing where it is not asked. -/
def Mode.question : Mode → List String
  | .all => []
  | .paths => []
  | .modified => ["diff", "--name-only", "--diff-filter=ACM", "HEAD"]
  | .changedSince ref _ => ["diff", "--name-only", "--diff-filter=ACM", ref ++ "..."]
  | .staged => ["diff", "--cached", "--name-only", "--diff-filter=ACM"]
  | .stagedWithStash => ["diff", "--cached", "--name-only", "--diff-filter=ACM"]

end Selection

namespace Selector

/-- What a choice of files does until git has said which there are. -/
def changes (s : Selector) : Run σ String := do
  Run.debug ("Selecting " ++ s.mode.describe)
  if s.mode = .stagedWithStash then s.stashUnstaged
  s.git.ask s.mode.question

/-- Git answers a choice begun in `w` with `out`, and the repository is found to start at `top`. In `w'`
the files are looked for. -/
def Answered (s : Selector) (h : Host σ) (w : World σ) (out : String) (top : Path) (w' : World σ) : Prop :=
  ∃ w₁, s.changes.go h w = (.ok out, w₁) ∧ s.repositoryRoot.go h w₁ = (.ok top, w')

/-- Git lists these names for a choice begun in `w`, and the repository is found to start at `top`. In
`w'` the files are looked for. -/
def Listed (s : Selector) (h : Host σ) (w : World σ) (names : List String) (top : Path)
    (w' : World σ) : Prop :=
  ∃ w₁, s.changes.go h w = (.ok (Git.listing names), w₁) ∧ s.repositoryRoot.go h w₁ = (.ok top, w')

/-- An entry of git's is there, in the project and not excluded, and the project names it `q`. -/
structure Takes (s : Selector) (t : FileTree) (here : Location) (top : Path) (entry : String) (q : Path) :
    Prop where
  there : t.exists? here (top / Path.ofString entry) = .ok true
  inside : s.relativeToRoot? (top / Path.ofString entry) = .ok q
  kept : s.excluder.covers q false = false

theorem Takes.relative {t : FileTree} {here : Location} {entry : String}
    (htakes : s.Takes t here top entry q) : q.anchor = .relative := by
  have hinside := htakes.inside
  unfold relativeToRoot? at hinside
  split at hinside
  · next hway =>
    cases hinside
    exact (Path.relativeTo?_eq_some_iff.1 hway).1
  · cases hinside

/-- The name is that of something in the project, from the top of the repository, that the project
names `q` and does not exclude. -/
structure Changed (s : Selector) (t : FileTree) (here : Location) (top : Path) (name : String) (q : Path) :
    Prop where
  named : ∃ parts, parts ≠ [] ∧ (∀ n ∈ parts, FileTree.IsEntryName n) ∧ name = "/".intercalate parts ∧
    t.exists? here (top.down parts) = .ok true ∧ (top.down parts).relativeTo? s.root = some q
  kept : s.excluder.covers q false = false

/-- A name that is read as it is leads to the file that it is the name of. -/
theorem Changed.takes {t : FileTree} {here : Location} {name : String}
    (htop : top.anchor = .root ∧ ".." ∉ top.parts) (hc : s.Changed t here top name q)
    (hplain : Git.IsPlain name) : s.Takes t here top (Git.entryOf name) q := by
  obtain ⟨parts, -, hparts, rfl, hthere, hinside⟩ := hc.named
  have hpath : top / Path.ofString ("/".intercalate parts) = top.down parts := by
    rw [Path.ofString_intercalate hparts, Path.join_of_relative rfl]
    rfl
  have habsolute : (top.down parts).isAbsolute = true :=
    Path.isAbsolute_of_anchor (by simp [Path.down, htop.1])
  have hdots : ".." ∉ (top.down parts).parts := by
    rw [Path.down_parts, List.mem_append, not_or]
    exact ⟨htop.2, fun hmem => (hparts _ hmem).2.2.1 rfl⟩
  refine ⟨?_, ?_, hc.kept⟩
  · rwa [Git.entryOf_plain hplain, hpath]
  · have hjoin : s.cwd / top.down parts = top.down parts := if_pos habsolute
    rw [Git.entryOf_plain hplain, hpath, relativeToRoot?, hjoin, Path.normalize_of_no_dots hdots, hinside]

theorem keepsTop_changes : Moves h KeepsTop s.changes := by
  refine (keepsTop_of_idle (idle_debug _)).bind fun _ => ?_
  have hask := s.git.keepsTop_ask (h := h) s.mode.question
  exact Moves.ite (s.keepsTop_stashUnstaged.bind fun _ => hask) hask

theorem Answered.topResolved {out : String} (hanswered : s.Answered h w out top w')
    (hw : w.TopResolved) : top.anchor = .root ∧ ".." ∉ top.parts := by
  obtain ⟨w₁, hchanges, hroot⟩ := hanswered
  have hlisting := keepsTop_changes (h := h) (s := s) w
  have hasking := s.keepsTop_repositoryRoot (h := h) w₁
  rw [hchanges] at hlisting
  rw [hroot] at hasking
  exact hasking (hlisting hw) top (root_of_repositoryRoot hroot)

theorem Listed.topResolved (hlisted : s.Listed h w names top w') (hw : w.TopResolved) :
    top.anchor = .root ∧ ".." ∉ top.parts := Answered.topResolved hlisted hw

/-- The file that an entry stands for, if it is one to choose. -/
def taken? (s : Selector) (t : FileTree) (here : Location) (top : Path) (entry : String) : Option Path :=
  match t.exists? here (top / Path.ofString entry), s.relativeToRoot? (top / Path.ofString entry) with
  | .ok true, .ok q => if s.excluder.covers q false then none else some q
  | _, _ => none

theorem taken?_eq_some_iff {t : FileTree} {here : Location} {entry : String} :
    s.taken? t here top entry = some q ↔ s.Takes t here top entry q := by
  unfold taken?
  constructor
  · intro htaken
    split at htaken
    · next q' hthere hinside =>
      split at htaken
      · cases htaken
      · next hkept =>
        cases htaken
        exact ⟨hthere, hinside, by simpa using hkept⟩
    · cases htaken
  · intro htakes
    rw [htakes.there, htakes.inside]
    simp [htakes.kept]

theorem finds_fileReported {t : FileTree} {entry : String} {b : Bool}
    (hasked : t.exists? h.cwd (top / Path.ofString entry) = .ok b) :
    Finds h t (s.fileReported top entry) (s.taken? t h.cwd top entry).toList := by
  refine (finds_askTree hasked).bind ?_
  unfold taken?
  rw [hasked]
  cases b with
  | false => exact (finds_debug _).bind (finds_pure _)
  | true =>
    rw [if_pos rfl]
    cases s.relativeToRoot? (top / Path.ofString entry) with
    | error e => exact (finds_debug _).bind (finds_pure _)
    | ok q =>
      cases hkept : s.excluder.covers q false with
      | true => simpa [hkept] using finds_pure (α := List Path) []
      | false => simpa [hkept] using finds_pure [q]

/-- What comes after git has listed the files is the same in every mode. -/
theorem go_candidates_of_changes {out : String} {w₁ : World σ} (hgit : s.mode.usesGit = true)
    (hchanges : s.changes.go h w = (.ok out, w₁)) :
    (do Run.debug ("Selecting " ++ s.mode.describe); s.candidates []).go h w =
      (s.filesReported (Git.linesOf out)).go h w₁ := by
  obtain ⟨_, w₀, hdebug, hchanges⟩ := of_go_bind_ok hchanges
  have hreported {x : Run σ String} {w₂ : World σ} (hx : x.go h w₂ = (.ok out, w₁)) :
      (Git.linesOf <$> x >>= s.filesReported).go h w₂ =
        (s.filesReported (Git.linesOf out)).go h w₁ := by
    have hlines : (Git.linesOf <$> x).go h w₂ = (.ok (Git.linesOf out), w₁) := by
      rw [go_map, hx]
      rfl
    exact go_bind_ok hlines _
  rw [go_bind_ok hdebug]
  cases hmode : s.mode with
  | all => simp [hmode, Selection.Mode.usesGit] at hgit
  | paths => simp [hmode, Selection.Mode.usesGit] at hgit
  | modified =>
    simp only [hmode, reduceCtorEq, if_false] at hchanges
    rw [candidates, hmode]
    exact hreported hchanges
  | changedSince ref named =>
    simp only [hmode, reduceCtorEq, if_false] at hchanges
    rw [candidates, hmode]
    exact hreported hchanges
  | staged =>
    simp only [hmode, reduceCtorEq, if_false] at hchanges
    rw [candidates, hmode]
    exact hreported hchanges
  | stagedWithStash =>
    simp only [hmode, if_true] at hchanges
    obtain ⟨_, w₂, hstash, hasked⟩ := of_go_bind_ok hchanges
    rw [candidates, hmode]
    simp only [go_bind_ok hstash]
    exact hreported hasked

/-- What a choice comes to once git has answered: the files that its entries stand for, in order. -/
theorem go_select_of_answered {out : String} (hgit : s.mode.usesGit = true)
    (hanswered : s.Answered h w out top w')
    (hasked : ∀ entry ∈ Git.linesOf out, ∃ b, w'.tree.exists? h.cwd (top / Path.ofString entry) = .ok b) :
    ∃ files w'', (s.select []).go h w = (.ok (if files = [] then none else some files), w'') ∧
      w''.tree = w'.tree ∧ Path.Ascending files ∧
      ∀ q, q ∈ files ↔ ∃ entry ∈ Git.linesOf out, s.Takes w'.tree h.cwd top entry q := by
  obtain ⟨w₁, hchanges, htop⟩ := hanswered
  let entries := Git.linesOf out
  let found := (entries.map fun entry => (s.taken? w'.tree h.cwd top entry).toList).flatten
  have hfound : Finds h w'.tree (do return (← entries.mapM (s.fileReported top)).flatten) found := by
    refine (Finds.mapM fun entry hentry => ?_).bind (finds_pure _)
    obtain ⟨b, hb⟩ := hasked entry hentry
    exact finds_fileReported hb
  obtain ⟨w₂, hgo, hw₂⟩ := hfound w' rfl
  have hcandidates : (do Run.debug ("Selecting " ++ s.mode.describe); s.candidates []).go h w =
      (.ok found, w₂) := by
    rw [go_candidates_of_changes hgit hchanges, filesReported, go_bind_ok htop]
    exact hgo
  have hmem (q : Path) : q ∈ found ↔ ∃ entry ∈ entries, s.Takes w'.tree h.cwd top entry q := by
    simp [found, taken?_eq_some_iff]
  have hascending : Path.Ascending (Path.sortedSet found) := by
    apply Path.ascending_sortedSet
    intro q hq
    obtain ⟨entry, -, htakes⟩ := (hmem q).1 hq
    exact htakes.relative
  obtain ⟨_, w₀, hdebug, hcandidates⟩ := of_go_bind_ok hcandidates
  refine ⟨Path.sortedSet found, w₂, ?_, hw₂.tree, hascending, fun q => Path.mem_sortedSet.trans (hmem q)⟩
  rw [select, if_neg (by simp), go_bind_ok hdebug, go_bind_ok hcandidates]
  by_cases hempty : Path.sortedSet found = []
  · simp [hempty, hgit]
  · simp [hempty]

/-- Once git has listed the files and its repository is found, what is chosen is what it lists that is
there. -/
theorem go_select_of_listed (hgit : s.mode.usesGit = true) (hlisted : s.Listed h w names top w')
    (hasked : ∀ entry ∈ Git.linesOf (Git.listing names),
      ∃ b, w'.tree.exists? h.cwd (top / Path.ofString entry) = .ok b) :
    ∃ chosen w'', (s.select []).go h w = (.ok chosen, w'') ∧ w''.tree = w'.tree ∧
      ∀ q, q ∈ chosen.getD [] ↔
        ∃ entry ∈ Git.linesOf (Git.listing names), s.Takes w'.tree h.cwd top entry q := by
  obtain ⟨files, w'', hgo, htree, -, hmem⟩ := go_select_of_answered hgit hlisted hasked
  refine ⟨_, w'', hgo, htree, fun q => ?_⟩
  rw [← hmem q]
  split
  · next hempty => rw [hempty, Option.getD_none]
  · rw [Option.getD_some]

/-- Asked for what git lists, a selector chooses what it finds by the entries it reads; among that is
every file of the project that is not excluded and whose name git prints as it is, without a blank at
either end. -/
theorem plain_chosen (hgit : s.mode.usesGit = true) (hw : w.TopResolved)
    (hlisted : s.Listed h w names top w') (hasked : ∀ name ∈ names, Git.entryOf name ≠ "" →
      ∃ b, w'.tree.exists? h.cwd (top / Path.ofString (Git.entryOf name)) = .ok b) :
    ∃ chosen w'', (s.select []).go h w = (.ok chosen, w'') ∧
      (∀ q, q ∈ chosen.getD [] ↔ ∃ name ∈ names, Git.entryOf name ≠ "" ∧
        s.Takes w'.tree h.cwd top (Git.entryOf name) q) ∧
      ∀ name ∈ names, Git.IsPlain name → ∀ q, s.Changed w'.tree h.cwd top name q →
        q ∈ chosen.getD [] := by
  obtain ⟨chosen, w'', hgo, -, hmem⟩ := go_select_of_listed hgit hlisted fun entry hentry => by
    obtain ⟨hne, name, hname, rfl⟩ := Git.mem_linesOf_listing.1 hentry
    exact hasked name hname hne
  have hchosen (q : Path) : q ∈ chosen.getD [] ↔ ∃ name ∈ names, Git.entryOf name ≠ "" ∧
      s.Takes w'.tree h.cwd top (Git.entryOf name) q := by
    rw [hmem]
    constructor
    · rintro ⟨entry, hentry, htakes⟩
      obtain ⟨hne, name, hname, rfl⟩ := Git.mem_linesOf_listing.1 hentry
      exact ⟨name, hname, hne, htakes⟩
    · rintro ⟨name, hname, hne, htakes⟩
      exact ⟨_, Git.mem_linesOf_listing.2 ⟨hne, name, hname, rfl⟩, htakes⟩
  refine ⟨chosen, w'', hgo, hchosen, fun name hname hplain q hc => ?_⟩
  have hne : name ≠ "" := by
    obtain ⟨parts, hparts, hentries, rfl, -⟩ := hc.named
    intro hempty
    have hread := Path.ofString_intercalate hentries
    rw [hempty] at hread
    exact hparts (congrArg Path.parts hread).symm
  have htop := hlisted.topResolved hw
  exact (hchosen q).2 ⟨name, hname, by rwa [Git.entryOf_plain hplain], hc.takes htop hplain⟩

end Selector

namespace Sample

/-- Git prints the first of these names as it is, and the second between quotes. -/
def changedNames : List String := ["sub/a b.py", "é.py"]

def accented : FileTree := ⟨[(["p"], .directory), (["p", "sub"], .directory),
  (["p", "sub", "a b.py"], .file .empty false), (["p", "é.py"], .file .empty false)]⟩

/-- Git lists both. -/
def listed : World Script := ⟨accented, { git := [
  { args := ["diff", "--name-only", "--diff-filter=ACM", "HEAD"], outcome := .ok (Git.listing changedNames) },
  { args := ["rev-parse", "--show-toplevel"], outcome := .ok "/p\n" }] }, [], {}, .warning⟩

end Sample

open Sample in
/-- A file whose name git prints between quotes is not chosen. -/
theorem not_listed_chosen : ¬ ∀ (s : Selector) (w w' w'' : World Script) (names : List String)
    (top : Path) (chosen : Option (List Path)), s.mode.usesGit = true → w.TopResolved →
      s.Listed Sample.host w names top w' → (s.select []).go Sample.host w = (.ok chosen, w'') →
      ∀ name ∈ names, ∀ q, s.Changed w'.tree Sample.host.cwd top name q →
        w'.tree.isDirectory? Sample.host.cwd (s.root / q) = .ok false → q ∈ chosen.getD [] := by
  intro hall
  have hruns : (Selector.start .modified root none [] none).comesTo Sample.host listed (fun s w =>
      s.changes.comesTo Sample.host w fun out w₁ => s.repositoryRoot.comesTo Sample.host w₁ fun top w' =>
        (s.select []).comesTo Sample.host w fun chosen _ =>
          decide (out = Git.listing changedNames ∧ s.mode.usesGit = true ∧
            w'.tree.exists? Sample.host.cwd (top.down ["é.py"]) = .ok true ∧
            (top.down ["é.py"]).relativeTo? s.root = some ⟨.relative, ["é.py"]⟩ ∧
            s.excluder.covers ⟨.relative, ["é.py"]⟩ false = false ∧
            w'.tree.isDirectory? Sample.host.cwd (s.root / ⟨.relative, ["é.py"]⟩) = .ok false ∧
            ⟨.relative, ["é.py"]⟩ ∉ chosen.getD [])) = true := by
    decide +kernel
  obtain ⟨s, w, hstart, hruns⟩ := of_comesTo hruns
  obtain ⟨out, w₁, hchanges, hruns⟩ := of_comesTo hruns
  obtain ⟨top, w', htop, hruns⟩ := of_comesTo hruns
  obtain ⟨chosen, w'', hselect, hruns⟩ := of_comesTo hruns
  obtain ⟨rfl, hgit, hthere, hinside, hkept, hfile, hmissed⟩ := of_decide_eq_true hruns
  refine hmissed (hall s w w' w'' changedNames top chosen hgit (Selector.topResolved_of_start hstart)
    ⟨w₁, hchanges, htop⟩ hselect "é.py" (by simp [changedNames]) _ ⟨?_, hkept⟩ hfile)
  exact ⟨["é.py"], by simp, by decide, by decide, hthere, hinside⟩

open Sample in
theorem plain_chosen_accented : ∃ s w w', (Selector.start .modified root none [] none).go Sample.host
      listed = (.ok s, w) ∧ s.mode.usesGit = true ∧ w.TopResolved ∧
    s.Listed Sample.host w changedNames root w' ∧ (∀ name ∈ changedNames, Git.entryOf name ≠ "" →
      ∃ b, w'.tree.exists? Sample.host.cwd (root / Path.ofString (Git.entryOf name)) = .ok b) ∧
    ∃ chosen w'', (s.select []).go Sample.host w = (.ok chosen, w'') ∧
      ⟨.relative, ["sub", "a b.py"]⟩ ∈ chosen.getD [] := by
  have hruns : (Selector.start .modified root none [] none).comesTo Sample.host listed (fun s w =>
      s.changes.comesTo Sample.host w fun out w₁ => s.repositoryRoot.comesTo Sample.host w₁ fun top w' =>
        decide (out = Git.listing changedNames ∧ top = root ∧ s.mode.usesGit = true ∧
          (∀ name ∈ changedNames, ∃ b, w'.tree.exists? Sample.host.cwd
            (root / Path.ofString (Git.entryOf name)) = .ok b) ∧
          w'.tree.exists? Sample.host.cwd (root.down ["sub", "a b.py"]) = .ok true ∧
          (root.down ["sub", "a b.py"]).relativeTo? s.root = some ⟨.relative, ["sub", "a b.py"]⟩ ∧
          s.excluder.covers ⟨.relative, ["sub", "a b.py"]⟩ false = false)) = true := by
    decide +kernel
  obtain ⟨s, w, hstart, hruns⟩ := of_comesTo hruns
  obtain ⟨out, w₁, hchanges, hruns⟩ := of_comesTo hruns
  obtain ⟨top, w', htop, hruns⟩ := of_comesTo hruns
  obtain ⟨rfl, rfl, hgit, hasked, hthere, hinside, hkept⟩ := of_decide_eq_true hruns
  have hw := Selector.topResolved_of_start hstart
  have hlisted : s.Listed Sample.host w changedNames root w' := ⟨w₁, hchanges, htop⟩
  have hasked' : ∀ name ∈ changedNames, Git.entryOf name ≠ "" → ∃ b, w'.tree.exists? Sample.host.cwd
      (root / Path.ofString (Git.entryOf name)) = .ok b := fun name hname _ => hasked name hname
  obtain ⟨chosen, w'', hgo, -, hplain⟩ := Selector.plain_chosen hgit hw hlisted hasked'
  refine ⟨s, w, w', hstart, hgit, hw, hlisted, hasked', chosen, w'', hgo, ?_⟩
  refine hplain "sub/a b.py" (by simp [changedNames]) ⟨by simp [Git.isSpecial], by decide, by decide⟩ _ ⟨?_, hkept⟩
  exact ⟨["sub", "a b.py"], by simp, by decide, by decide, hthere, hinside⟩

end LintRunner
