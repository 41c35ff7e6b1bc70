import LintRunner.Proofs.Selection.Sources

/-! What a chosen path leads to. A path that the user gives is asked for its kind; one that git reports
only for being there, and what a walk comes upon only for not being a directory. -/

namespace LintRunner

open Run World

variable {σ : Type} {h : Host σ} {w : World σ} {t : FileTree} {here : Location}

namespace Selector

variable {s : Selector} {p q base : Path} {requested : List Path} {names : List String} {name : String}

/-- The user or git has named the chosen path so, from that place. -/
inductive Names (s : Selector) (w : World σ) (requested : List Path) : Path → Path → Path → Prop where
  | user {given p : Path} (hmode : s.mode = .paths) (hgiven : given ∈ requested)
      (hp : s.relativeToRoot? (s.cwd / given) = .ok p) : Names s w requested s.cwd given p
  | git {top p : Path} {entry : String} (hmode : s.mode.usesGit = true)
      (htop : w.holding.root = some top) (hsaid : Git.Said w entry)
      (hp : s.relativeToRoot? (top / Path.ofString entry) = .ok p) :
      Names s w requested top (Path.ofString entry) p

/-- The path was named with `..` behind a link. What is chosen has that taken out by the text, and leads
to something else. -/
def Astray (s : Selector) (h : Host σ) (w : World σ) (requested : List Path) (p : Path) : Prop :=
  ∃ place given, s.Names w requested place given p ∧ ".." ∈ given.parts ∧
    w.tree.status h.cwd (place / given) ≠ w.tree.status h.cwd (s.root / p)

/-- Git has reported a directory, for instance that of a submodule. -/
def ReportedDirectory (s : Selector) (h : Host σ) (w : World σ) (p : Path) : Prop :=
  w.tree.isDirectory? h.cwd (s.root / p) = .ok true ∧ s.mode.usesGit = true ∧
    ∃ top entry, w.holding.root = some top ∧ Git.Said w entry ∧
      s.relativeToRoot? (top / Path.ofString entry) = .ok p

/-- What a chosen path can be in the world that the choice leaves. -/
inductive Standing (s : Selector) (h : Host σ) (w : World σ) (requested : List Path) (p : Path) : Prop where
  | file (hexists : w.tree.exists? h.cwd (s.root / p) = .ok true)
      (hfile : w.tree.isDirectory? h.cwd (s.root / p) = .ok false)
  /-- A walk comes upon links like any other file, wherever they lead. -/
  | lost {d : Path} {name target : String} (hgit : s.mode.usesGit = false)
      (hp : s.root / p = d.child name) (hlink : w.tree.Holds h.cwd d name (.link target))
      (hlost : ∀ x, w.tree.status h.cwd (s.root / p) ≠ .ok x)
  | directory (hdirectory : s.ReportedDirectory h w p)
  | astray (hastray : s.Astray h w requested p)

theorem join_eq_of_relativeToRoot? (habsolute : q.isAbsolute = true) (hdots : ".." ∉ q.parts)
    (hp : s.relativeToRoot? q = .ok p) : s.root / p = q := by
  have hrelative := relative_of_relativeToRoot? hp
  have hjoin : s.cwd / q = q := if_pos habsolute
  unfold relativeToRoot? at hp
  rw [hjoin, Path.normalize_of_no_dots hdots] at hp
  split at hp
  · next below hbelow =>
    cases hp
    rw [Path.join_of_relative hrelative, (Path.relativeTo?_eq_some_iff.1 hbelow).2]
  · cases hp

/-- Something is there, but it need not be a file. -/
theorem file_or_directory {q : Path} (hexists : t.exists? here q = .ok true) :
    t.isDirectory? here q = .ok true ∨ t.isDirectory? here q = .ok false := by
  obtain ⟨x, hs⟩ := FileTree.exists?_eq_true_iff.1 hexists
  cases hdirectory : FileTree.Entry.isDirectory x.2 <;>
    simp [FileTree.isDirectory?, FileTree.inquire, hs, hdirectory]

theorem standing_of_offers (ht : w.tree.Sound) (hgit : s.mode.usesGit = false)
    (hbase : base.anchor = .root ∧ ".." ∉ base.parts)
    (hoffers : Walker.Offers w.tree h.cwd base names name)
    (hp : s.relativeToRoot? (base.down (names ++ [name])) = .ok p) : Standing s h w requested p := by
  have hentries := hoffers.isEntryName ht
  have hdots : ".." ∉ (base.down (names ++ [name])).parts := by
    rw [Path.down_parts, List.mem_append, not_or]
    exact ⟨hbase.2, fun hmem => (hentries _ hmem).2.2.1 rfl⟩
  have habsolute : (base.down (names ++ [name])).isAbsolute = true :=
    Path.isAbsolute_of_anchor (by simp [Path.down, hbase.1])
  have heq := join_eq_of_relativeToRoot? habsolute hdots hp
  -- the walk asks whether an entry is a directory, and never whether a link leads anywhere
  have hno : w.tree.isDirectory? h.cwd (s.root / p) ≠ .ok true := by
    intro hyes
    have hleads := Walker.leadsToDirectory_eq_true_iff.2 (heq ▸ hyes)
    rw [hoffers.file] at hleads
    cases hleads
  cases hs : w.tree.status h.cwd (s.root / p) with
  | ok x =>
    have hexists := FileTree.exists?_eq_true_iff.2 ⟨x, hs⟩
    exact .file hexists ((file_or_directory hexists).resolve_left hno)
  | error r =>
    obtain ⟨e, he⟩ := hoffers.entry
    rw [← Path.child_down] at heq
    have hfound (hlink : ∀ target, e ≠ .link target) : Standing s h w requested p := by
      obtain ⟨l, hl⟩ := he.status_child ht hlink
      rw [heq, hl] at hs
      cases hs
    cases e with
    | link target => exact .lost hgit heq he (by simp [hs])
    | file bytes executable => exact hfound (by simp)
    | directory => exact hfound (by simp)

/-- What a chosen path leads to is what was named, or it has gone astray. -/
theorem astray_or_status_eq {place given : Path} (hplace : place.anchor = .root ∧ ".." ∉ place.parts)
    (hnames : s.Names w requested place given p) : s.Astray h w requested p ∨
      w.tree.status h.cwd (s.root / p) = w.tree.status h.cwd (place / given) := by
  have hp : s.relativeToRoot? (place / given) = .ok p := by
    cases hnames with
    | user _ _ hp => exact hp
    | git _ _ _ hp => exact hp
  by_cases hsame : w.tree.status h.cwd (s.root / p) = w.tree.status h.cwd (place / given)
  · exact .inr hsame
  · refine .inl ⟨place, given, hnames, ?_, Ne.symm hsame⟩
    by_contra hdots
    refine hsame ?_
    rw [join_eq_of_relativeToRoot? (Path.isAbsolute_join (Path.isAbsolute_of_anchor hplace.1) given)
      (Path.not_mem_join hplace.2 hdots) hp]

/-- Each way to be chosen leads to one of the cases. -/
theorem standing_of_source (ht : w.tree.Sound) (hcwd : s.cwd.anchor = .root ∧ ".." ∉ s.cwd.parts)
    (hroot : s.root.anchor = .root ∧ ".." ∉ s.root.parts) (hw : w.TopResolved)
    (hsource : Source s h w requested p) : Standing s h w requested p := by
  cases hsource with
  | walked hmode hoffers hp => exact standing_of_offers ht (by rw [hmode]; rfl) hroot hoffers hp
  | @given r hmode hr hstands =>
    cases hstands with
    | itself hexists hfile hp =>
      rcases astray_or_status_eq hcwd (.user hmode hr hp) with hastray | hsame
      · exact .astray hastray
      · rw [FileTree.exists?, ← FileTree.inquire_congr hsame] at hexists
        rw [FileTree.isDirectory?, ← FileTree.inquire_congr hsame] at hfile
        exact .file hexists hfile
    | within _ hbase hoffers hp =>
      exact standing_of_offers ht (by rw [hmode]; rfl) (FileTree.of_resolve_ok hbase) hoffers hp
  | @reported top entry hmode hsaid htop hexists hp =>
    rcases astray_or_status_eq (hw top htop) (.git hmode htop hsaid hp) with hastray | hsame
    · exact .astray hastray
    · rw [FileTree.exists?, ← FileTree.inquire_congr hsame] at hexists
      rcases file_or_directory hexists with hdirectory | hfile
      · exact .directory ⟨hdirectory, hmode, top, entry, htop, hsaid, hp⟩
      · exact .file hexists hfile

/-- Whatever is chosen is a file, but for the cases of `Standing`. -/
theorem standing_of_select {mode : Selection.Mode} {root : Path} {cwd : Option Path} {exclude : List String}
    {git : Option Git} {w₀ w₁ w' : World σ} {files : List Path}
    (hstart : (start mode root cwd exclude git).go h w₀ = (.ok s, w₁)) (hw : w.TopResolved)
    (ht : w'.tree.Sound) (hselect : (s.select requested).go h w = (.ok (some files), w')) :
    ∀ p ∈ files, Standing s h w' requested p := by
  obtain ⟨-, hroot, hcwd, -, -⟩ := of_start_ok hstart
  intro p hp
  exact standing_of_source ht (FileTree.of_resolve_ok hcwd) (FileTree.of_resolve_ok hroot)
    (topResolved_of_select hw hselect) (source_of_select ht hselect p hp)

end Selector

end LintRunner
