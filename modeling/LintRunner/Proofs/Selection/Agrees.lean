import LintRunner.Proofs.Run.Agrees

/-! Choosing files from two directories of one project. The directory of a run plays no part in where git
is found, in what a walk comes upon and in what git's entries stand for, as long as programs are looked
for along paths that start from the top. -/

namespace LintRunner

open World Run

variable {σ α : Type} {h : Host σ} {c d : Location}

/-- Wherever the program may be is a path from the top. -/
def Exec.Request.FromTop (r : Exec.Request) (h : Host σ) : Prop :=
  ∀ raw ∈ Exec.candidates r.exe (Exec.searchPath (Exec.overlay h.env r.env)), raw.startsWith "/" = true

namespace Exec

theorem lookup?_of_fromTop {r : Request} (hr : r.FromTop h) (t : FileTree) :
    lookup? t c r.exe (searchPath (overlay h.env r.env)) =
      lookup? t d r.exe (searchPath (overlay h.env r.env)) := by
  have hsame : ∀ raw ∈ candidates r.exe (searchPath (overlay h.env r.env)),
      isExecutable t c raw = isExecutable t d raw := fun raw hraw => by
    simp only [isExecutable, hr raw hraw, if_true]
  unfold lookup?
  revert hsame
  generalize candidates r.exe (searchPath (overlay h.env r.env)) = raws
  intro hsame
  induction raws with
  | nil => rfl
  | cons raw rest ih =>
    rw [List.find?_cons, List.find?_cons, hsame raw (by simp),
      ih fun raw hraw => hsame raw (by simp [hraw])]

theorem agrees_spawn (s : Spawn) : Agrees h c d (fun _ => True) (spawn s) (spawn s) := by
  refine agrees_of_keepsTop (fun w => keepsTop_of_root_eq (by rw [(spawn_events s _ w).1])) fun w => ?_
  simp only [spawn, go_bind, go_host, go_world, go_change, go_record, go_ofExcept, Host.startedIn]

theorem agrees_logEnd (r : Request) (o : Completed) :
    Agrees h c d (fun _ => True) (logEnd r o) (logEnd r o) := by
  unfold logEnd
  split
  · exact agrees_debug _
  · refine (agrees_debug _).bind fun _ _ => Agrees.ite (fun _ => ?_) fun _ => agrees_pure trivial
    exact .ite (fun _ => (agrees_debug _).bind fun _ _ =>
      .ite (fun _ => agrees_debug _) fun _ => agrees_pure trivial)
      fun _ => .ite (fun _ => agrees_debug _) fun _ => agrees_pure trivial

theorem agrees_run {r : Request} {directory : Path} (hr : r.FromTop h) (hdir : r.inDir = some directory)
    (habsolute : directory.isAbsolute = true) : Agrees h c d (fun _ => True) (run r) (run r) := by
  refine Agrees.host (agrees_tree.bind fun t _ => Agrees.here ?_)
  have hlookup := lookup?_of_fromTop (c := c) (d := d) hr t
  simp only [Host.startedIn] at hlookup ⊢
  rw [hlookup]
  split
  · exact agrees_fail _
  · refine Agrees.cwd ?_
    rw [hdir]
    refine (agrees_resolve habsolute).bind fun cwd _ => (agrees_debug _).bind fun _ _ => ?_
    refine (agrees_spawn _).bind fun o _ => (agrees_logEnd r o).bind fun _ _ => ?_
    exact agrees_ofExcept fun _ _ => trivial

end Exec

/-- If git is started at all, it is looked for along paths that start from the top. -/
def Host.FindsGit (h : Host σ) : Prop :=
  h.git = none → ∀ raw ∈ Exec.candidates "git" (Exec.searchPath h.env), raw.startsWith "/" = true

/-- Wherever it is asked from this directory where the repository starts, git says so by a path from the
top. -/
def Git.TellsTop (g : Git) (h : Host σ) : Prop :=
  ∀ here w out w', (g.ask ["rev-parse", "--show-toplevel"]).go (h.startedIn here) w = (.ok out, w') →
    ∀ line, (linesOf out).head? = some line → (Path.ofString line).isAbsolute = true

namespace Git

variable {g : Git} (hfinds : h.FindsGit) (hcwd : g.cwd.isAbsolute = true)

include hfinds hcwd

theorem agrees_answer (args : List String) :
    Agrees h c d (fun _ => True) (g.answer args) (g.answer args) := by
  refine Agrees.host ?_
  cases hgit : h.git with
  | none =>
    simp only [Host.startedIn, hgit]
    have hrequest : (g.request args).FromTop h := hfinds hgit
    exact (Exec.agrees_run hrequest rfl hcwd).bind fun _ _ => agrees_pure trivial
  | some respond =>
    simp only [Host.startedIn, hgit]
    refine agrees_of_keepsTop ?_ fun w => by
      simp only [go_bind, go_world, go_change, go_ofExcept]
    exact moves_world.bind fun _ => Moves.bind (fun _ => keepsTop_of_root_eq rfl) fun _ =>
      moves_ofExcept _ _

theorem agrees_ask (args : List String) : Agrees h c d (fun _ => True) (g.ask args) (g.ask args) := by
  refine (agrees_answer hfinds hcwd args).attempt.bind fun outcome _ => ?_
  refine (agrees_record _).bind fun _ _ => ?_
  exact agrees_ofExcept fun _ _ => trivial

theorem agrees_root? (htop : g.TellsTop h) :
    Agrees h c d (fun r => ∀ top, r = some top → top.isAbsolute = true) g.root? g.root? := by
  have hask : Agrees h c d (fun out => ∀ line, (linesOf out).head? = some line →
      (Path.ofString line).isAbsolute = true) (g.ask ["rev-parse", "--show-toplevel"])
      (g.ask ["rev-parse", "--show-toplevel"]) := by
    intro w hw
    obtain ⟨hsame, hkeeps, -⟩ := agrees_ask (c := c) (d := d) hfinds hcwd ["rev-parse", "--show-toplevel"] w hw
    refine ⟨hsame, hkeeps, fun out hout =>
      htop c w out _ (Prod.ext hout rfl)⟩
  refine hask.attempt.bind fun r hr => ?_
  split
  · next out =>
    refine agrees_pure fun top htop => ?_
    obtain ⟨line, hline, rfl⟩ := Option.map_eq_some_iff.1 htop
    exact hr out rfl line hline
  · exact (agrees_debug _).bind fun _ _ => agrees_pure (by simp)
  · exact agrees_fail _

end Git

namespace IgnoreFile

theorem agrees_readLines (source : Path) (lines : List String) :
    Agrees h c d (fun _ => True) (readLines source lines) (readLines source lines) := by
  induction lines with
  | nil => exact agrees_pure trivial
  | cons line rest ih =>
    unfold readLines
    split
    · exact ih.bind fun _ _ => agrees_pure trivial
    · exact (agrees_log _ _).bind fun _ _ => ih
    · exact agrees_fail _

theorem agrees_load {source : Path} (hsource : source.isAbsolute = true) (directory : Path) :
    Agrees h c d (fun _ => True) (load source directory) (load source directory) := by
  refine (agrees_bytesAt hsource).attempt.bind fun r _ => ?_
  split
  · exact (agrees_log _ _).bind fun _ _ => agrees_pure trivial
  · exact agrees_fail _
  · exact (agrees_readLines _ _).bind fun _ _ => agrees_pure trivial

theorem agrees_release (f : IgnoreFile) (start : Path) :
    Agrees h c d (fun _ => True) (f.release start) (f.release start) :=
  .ite (fun _ => agrees_pure trivial) fun _ => (agrees_debug _).bind fun _ _ => agrees_pure trivial

end IgnoreFile

theorem agrees_findGitRoot {start : Path} (hstart : start.isAbsolute = true) :
    Agrees h c d (fun r => ∀ top, r = some top → top.isAbsolute = true)
      (findGitRoot start) (findGitRoot start) := by
  have habsolute : ∀ p ∈ start :: start.parents, p.isAbsolute = true := by
    intro p hp
    rcases List.mem_cons.1 hp with rfl | hp
    · exact hstart
    · exact Path.isAbsolute_of_mem_parents hstart hp
  refine (Agrees.findM? fun p hp => agrees_exists? (Path.isAbsolute_child (habsolute p hp) _)).mono ?_
  exact fun r hr top htop => habsolute top (hr top htop)

namespace Walker

/-- All that the walker goes by is named from the top. -/
structure FromTop (v : Walker) : Prop where
  root : v.root.isAbsolute = true
  gitRoot : ∀ top, v.gitRoot = some top → top.isAbsolute = true

theorem agrees_start {root : Path} (hroot : root.isAbsolute = true) :
    Agrees h c d FromTop (start root) (start root) :=
  (agrees_findGitRoot hroot).bind fun _ hgit => agrees_pure ⟨hroot, hgit⟩

theorem agrees_loadIfFile {source : Path} (hsource : source.isAbsolute = true) (directory : Path) :
    Agrees h c d (fun _ => True) (loadIfFile source directory) (loadIfFile source directory) := by
  refine (agrees_isFile? hsource).bind fun b _ => .ite (fun _ => ?_) fun _ => agrees_pure trivial
  exact (IgnoreFile.agrees_load hsource _).bind fun _ _ => agrees_pure trivial

variable {v : Walker} {directory base : Path} {f g : α → Path → Run σ α}

theorem agrees_rulesIn (hdirectory : directory.isAbsolute = true) :
    Agrees h c d (fun _ => True) (v.rulesIn directory) (v.rulesIn directory) := by
  have hload (name : String) := agrees_loadIfFile (h := h) (c := c) (d := d)
    (Path.isAbsolute_child hdirectory name) directory
  have hown (forGit : List IgnoreFile) : Agrees h c d (fun _ => True)
      (do return forGit ++ (← loadIfFile (σ := σ) (directory.child ".ignore") directory))
      (do return forGit ++ (← loadIfFile (directory.child ".ignore") directory)) :=
    (hload ".ignore").bind fun _ _ => agrees_pure trivial
  exact .ite (fun _ => (hload ".gitignore").bind fun _ _ => hown _)
    fun _ => (agrees_pure trivial).bind fun _ (_ : True) => hown _

theorem isAbsolute_of_mem_steps {top p : Path} {names : List String} (htop : top.isAbsolute = true)
    (hp : p ∈ steps top names) : p.isAbsolute = true := by
  induction names generalizing top with
  | nil =>
    rw [List.mem_singleton.1 hp]
    exact htop
  | cons name names ih =>
    rcases List.mem_cons.1 hp with rfl | hp
    · exact htop
    · exact ih (Path.isAbsolute_child htop name) hp

theorem agrees_inherited (hv : v.FromTop) (base : Path) :
    Agrees h c d (fun _ => True) (v.inherited base) (v.inherited base) := by
  have htop : (v.gitRoot.getD v.root).isAbsolute = true := by
    cases hgit : v.gitRoot with
    | none => exact hv.root
    | some top => exact hv.gitRoot top hgit
  have hbelow (own : List IgnoreFile) {directories : List Path}
      (habsolute : ∀ p ∈ directories, p.isAbsolute = true) : Agrees h c d (fun _ => True)
      (do return own ++ (← directories.mapM v.rulesIn).flatten)
      (do return own ++ (← directories.mapM v.rulesIn).flatten) :=
    (Agrees.mapM fun p hp => agrees_rulesIn (habsolute p hp)).bind fun _ _ => agrees_pure trivial
  unfold inherited
  split
  · next git hgit =>
    have hsource : (((git.child ".git").child "info").child "exclude").isAbsolute = true :=
      hv.gitRoot git hgit
    refine (agrees_loadIfFile hsource git).bind fun own _ => ?_
    split
    · exact agrees_pure trivial
    · exact hbelow own fun p hp => isAbsolute_of_mem_steps htop hp
  · refine (agrees_pure trivial).bind fun own (_ : True) => ?_
    split
    · exact agrees_pure trivial
    · exact hbelow own fun p hp => isAbsolute_of_mem_steps htop hp

theorem agrees_listing (hdirectory : directory.isAbsolute = true) :
    Agrees h c d (fun _ => True) (listing (σ := σ) directory) (listing directory) := by
  refine agrees_tree.bind fun t _ => Agrees.here ?_
  rw [FileTree.status_of_isAbsolute (c := c) (d := d) hdirectory t]
  split
  · exact agrees_tree.bind fun _ _ => agrees_pure trivial
  · exact agrees_pure trivial

theorem agrees_admits (rules : List IgnoreFile) (directory : Path) :
    Agrees h c d (fun _ => True) (admits (σ := σ) rules directory) (admits rules directory) :=
  .ite (fun _ => agrees_pure trivial) fun _ => .ite
    (fun _ => (agrees_debug _).bind fun _ _ => agrees_pure trivial) fun _ => agrees_pure trivial

theorem leadsToDirectory_of_isAbsolute {p : Path} (hp : p.isAbsolute = true) (t : FileTree) :
    leadsToDirectory t c p = leadsToDirectory t d p := by
  rw [leadsToDirectory, leadsToDirectory, FileTree.isDirectory?, FileTree.inquire_of_isAbsolute hp]

section Fold

variable {P : α → Prop}
  (hstep : ∀ acc, P acc → ∀ p : Path, p.isAbsolute = true → Agrees h c d P (f acc p) (g acc p))

include hstep

/-- The two may take a file into account in ways of their own as long as these agree. -/
theorem agrees_foldBelow (levels : Nat) (rules : List IgnoreFile)
    (hdirectory : directory.isAbsolute = true) {acc : α} (hacc : P acc) :
    Agrees h c d P (v.foldBelow f levels rules directory acc)
      (v.foldBelow g levels rules directory acc) := by
  induction levels generalizing rules directory acc with
  | zero => exact agrees_pure hacc
  | succ levels ih =>
    have hchild (e : String × Entry) : (directory.child e.1).isAbsolute = true :=
      Path.isAbsolute_child hdirectory _
    refine (agrees_listing hdirectory).bind fun entries _ => ?_
    refine (agrees_rulesIn hdirectory).bind fun new _ => agrees_tree.bind fun t _ => Agrees.here ?_
    have hleads : (fun e : String × Entry => leadsToDirectory t c (directory.child e.1)) =
        fun e => leadsToDirectory t d (directory.child e.1) :=
      funext fun e => leadsToDirectory_of_isAbsolute (hchild e) t
    simp only [hleads]
    refine (Agrees.filterM fun e _ => agrees_admits _ _).bind fun kept _ => ?_
    refine (Agrees.foldlM (fun acc hacc p hp => hstep acc hacc p ?_) hacc).bind fun acc hacc => ?_
    · obtain ⟨e, -, rfl⟩ := List.mem_map.1 (List.mem_of_mem_filter hp)
      exact hchild e
    · exact Agrees.foldlM (fun acc hacc e _ => ih _ (hchild e) hacc) hacc

theorem agrees_foldFiles (hv : v.FromTop) (hbase : base.isAbsolute = true) {acc : α} (hacc : P acc) :
    Agrees h c d P (v.foldFiles f base acc) (v.foldFiles g base acc) := by
  refine (agrees_inherited hv base).bind fun inherited _ => ?_
  refine (Agrees.mapM fun rules _ => IgnoreFile.agrees_release rules base).bind fun rules _ => ?_
  exact agrees_tree.bind fun t _ => agrees_foldBelow hstep _ _ hbase hacc

end Fold

end Walker

namespace Selector

/-- All that a choice goes by, except where it is made, is named from the top. -/
structure FromTop (s : Selector) (h : Host σ) : Prop where
  root : s.root.isAbsolute = true
  git : s.git.cwd.isAbsolute = true
  finds : s.mode.usesGit = true → h.FindsGit
  top : s.mode.usesGit = true → s.git.TellsTop h

/-- The same choice, made from elsewhere. -/
def madeIn (s : Selector) (cwd : Path) : Selector := { s with cwd }

theorem agrees_holding : Agrees h c d (fun _ => True) (holding (σ := σ)) holding :=
  fun _ hw => ⟨rfl, hw, fun _ _ => trivial⟩

theorem agrees_holdStash (stash : Option Bool) : Agrees (σ := σ) h c d (fun _ => True)
    (hold ({ · with stash })) (hold ({ · with stash })) :=
  fun _ hw => ⟨rfl, hw, fun _ _ => trivial⟩

variable {s : Selector} {p here there : Path}

theorem relativeToRoot?_madeIn (hp : p.isAbsolute = true) :
    (s.madeIn here).relativeToRoot? p = s.relativeToRoot? p := by
  have hjoin (cwd : Path) : cwd / p = p := if_pos hp
  rw [relativeToRoot?, relativeToRoot?, hjoin, hjoin]
  rfl

theorem agrees_addFound (files : List Path) (hp : p.isAbsolute = true) :
    Agrees h c d (fun _ => True) ((s.madeIn here).addFound files p)
      ((s.madeIn there).addFound files p) := by
  rw [addFound, addFound, relativeToRoot, relativeToRoot, relativeToRoot?_madeIn hp,
    relativeToRoot?_madeIn hp]
  exact (agrees_ofExcept fun _ _ => trivial).bind fun _ (_ : True) => agrees_pure trivial

theorem agrees_walkFiles (hs : s.FromTop h) {base : Path} (hbase : base.isAbsolute = true) :
    Agrees h c d (fun _ => True) ((s.madeIn here).walkFiles base) ((s.madeIn there).walkFiles base) :=
  (Walker.agrees_start hs.root).bind fun _ hv =>
    Walker.agrees_foldFiles (fun files _ _ hp => agrees_addFound files hp) hv hbase trivial

theorem agrees_fileReported {top : Path} (htop : top.isAbsolute = true) (entry : String) :
    Agrees h c d (fun _ => True) ((s.madeIn here).fileReported top entry)
      ((s.madeIn there).fileReported top entry) := by
  have hfull := Path.isAbsolute_join htop (Path.ofString entry)
  simp only [fileReported, relativeToRoot?_madeIn hfull]
  refine (agrees_exists? hfull).bind fun there? _ => .ite (fun _ => ?_) fun _ => ?_
  · split
    · exact (agrees_debug _).bind fun _ _ => agrees_pure trivial
    · exact agrees_pure trivial
  · exact (agrees_debug _).bind fun _ _ => agrees_pure trivial

variable (hs : s.FromTop h)

section Git

variable (hgit : s.mode.usesGit = true)

include hs hgit

theorem agrees_repositoryRoot :
    Agrees h c d (fun top => top.isAbsolute = true) (s.madeIn here).repositoryRoot
      (s.madeIn there).repositoryRoot := by
  have hheld : Agrees h c d
      (fun held => ∀ top, held.root = some top → top.isAbsolute = true) holding holding := by
    intro w hw
    refine ⟨rfl, hw, ?_⟩
    rintro _ ⟨⟩ top htop
    rw [Path.isAbsolute, (hw top htop).1]
    rfl
  refine hheld.bind fun held hheld => ?_
  split
  · next top htop => exact agrees_pure (hheld top htop)
  · refine (Git.agrees_root? (hs.finds hgit) hs.git (hs.top hgit)).bind fun said hsaid => ?_
    split
    · exact agrees_fail _
    · next said =>
      refine (agrees_resolve (hsaid said rfl)).bind fun top htop => ?_
      refine Agrees.bind (P := fun _ => True) ?_ fun _ _ => agrees_pure ?_
      · intro w _
        refine ⟨rfl, ?_, fun _ _ => trivial⟩
        rintro _ ⟨⟩
        exact htop
      · rw [Path.isAbsolute, htop.1]
        rfl

theorem agrees_filesReported (entries : List String) :
    Agrees h c d (fun _ => True) ((s.madeIn here).filesReported entries)
      ((s.madeIn there).filesReported entries) := by
  refine (agrees_repositoryRoot hs hgit).bind fun top htop => ?_
  refine (Agrees.mapM (Q := fun _ => True) fun entry _ => agrees_fileReported htop entry).bind ?_
  exact fun _ _ => agrees_pure trivial

theorem agrees_stashUnstaged :
    Agrees h c d (fun _ => True) (s.madeIn here).stashUnstaged (s.madeIn there).stashUnstaged := by
  refine (agrees_repositoryRoot hs hgit).bind fun top htop => ?_
  refine (agrees_exists? (p := (top.child ".git").child "MERGE_MODE") htop).bind fun merging _ => ?_
  refine .ite (fun _ => agrees_debug _) fun _ => ?_
  refine agrees_holding.bind fun held _ => .ite (fun _ => ?_) fun _ => agrees_pure trivial
  have hstash : Agrees (σ := σ) h c d (fun _ => True) s.git.stash s.git.stash :=
    (Git.agrees_ask (hs.finds hgit) hs.git _).bind fun out _ => .ite
      (fun _ => (agrees_debug _).bind fun _ _ => agrees_pure trivial)
      fun _ => (agrees_debug _).bind fun _ _ => agrees_pure trivial
  exact hstash.bind fun active _ => agrees_holdStash _

theorem agrees_close :
    Agrees h c d (fun _ => True) (s.madeIn here).close (s.madeIn there).close := by
  refine agrees_holding.bind fun held _ => ?_
  split
  · exact agrees_pure trivial
  · refine (agrees_holdStash _).bind fun _ _ =>
      Agrees.bind (P := fun _ => True) ?_ fun _ _ => agrees_holdStash _
    refine .ite (fun _ => ?_) fun _ => agrees_pure trivial
    have hpop : Agrees (σ := σ) h c d (fun _ => True) s.git.pop s.git.pop :=
      (Git.agrees_ask (hs.finds hgit) hs.git _).bind fun _ _ => agrees_pure trivial
    refine hpop.attempt.bind fun r _ => ?_
    split
    · exact agrees_pure trivial
    · exact agrees_log _ _
    · exact agrees_fail _

end Git

include hs

theorem agrees_candidates (hmode : s.mode ≠ .paths) (requested : List Path) :
    Agrees h c d (fun _ => True) ((s.madeIn here).candidates requested)
      ((s.madeIn there).candidates requested) := by
  have hreported (hgit : s.mode.usesGit = true) (args : List String) : Agrees h c d (fun _ => True)
      (Git.linesOf <$> s.git.ask args >>= (s.madeIn here).filesReported)
      (Git.linesOf <$> s.git.ask args >>= (s.madeIn there).filesReported) := by
    refine Agrees.bind (P := fun _ => True) ?_ fun entries _ => agrees_filesReported hs hgit entries
    refine ((Git.agrees_ask (hs.finds hgit) hs.git args).bind (Q := fun _ => True) fun out _ =>
      agrees_pure (a := Git.linesOf out) trivial).of_go_eq ?_ ?_
    · exact fun w => by rw [← bind_pure_comp]
    · exact fun w => by rw [← bind_pure_comp]
  unfold candidates
  simp only [madeIn] at hreported ⊢
  split
  · exact agrees_walkFiles hs hs.root
  · next hpaths => exact absurd hpaths hmode
  · next hmode => exact hreported (by rw [hmode]; rfl) _
  · next hmode => exact hreported (by rw [hmode]; rfl) _
  · next hmode => exact hreported (by rw [hmode]; rfl) _
  · next hmode =>
    have hgit : s.mode.usesGit = true := by rw [hmode]; rfl
    exact (agrees_stashUnstaged hs hgit).bind fun _ _ => hreported hgit _

/-- From wherever it is made, the choice is the same unless it is of paths given by the user. -/
theorem agrees_select (hmode : s.mode ≠ .paths) (requested : List Path) :
    Agrees h c d (fun _ => True) ((s.madeIn here).select requested)
      ((s.madeIn there).select requested) := by
  have hrest : Agrees h c d (fun _ => True) (do
      debug ("Selecting " ++ s.mode.describe)
      let files := Path.sortedSet (← (s.madeIn here).candidates requested)
      if files ≠ [] then return some files
      else if s.mode.usesGit then return none
      else fail (.selection (.allExcluded s.mode))) (do
      debug ("Selecting " ++ s.mode.describe)
      let files := Path.sortedSet (← (s.madeIn there).candidates requested)
      if files ≠ [] then return some files
      else if s.mode.usesGit then return none
      else fail (.selection (.allExcluded s.mode))) := by
    refine (agrees_debug _).bind fun _ _ => (agrees_candidates hs hmode requested).bind fun _ _ => ?_
    exact .ite (fun _ => agrees_pure trivial) fun _ =>
      .ite (fun _ => agrees_pure trivial) fun _ => agrees_fail _
  exact .ite (fun _ => (agrees_fail _).bind fun _ (_ : True) => hrest) fun _ => hrest

end Selector

end LintRunner
