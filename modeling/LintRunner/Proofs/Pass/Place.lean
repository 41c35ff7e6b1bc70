import LintRunner.Cli.Run
import LintRunner.Proofs.Filter.Agrees
import LintRunner.Proofs.Pass.Stash

/-! Where a pass is started. From a directory of a project the search for its configuration leads up to
the root, and whatever the pass does from there on goes by paths that start from the top. -/

namespace LintRunner

open World Run

variable {σ : Type} {h : Host σ} {c d : Location}

namespace Reporter

variable (r : Reporter)

theorem agrees_insist (paint : Option Terminal.Paint) (text : String) :
    Agrees (σ := σ) h c d (fun _ => True) (r.insist paint text) (r.insist paint text) := by
  refine agrees_of_keepsTop (fun w => ?_) fun _ => rfl
  obtain ⟨_, w', hgo, -, hw⟩ := r.yields_insist paint text (h := h.startedIn c) w
  rw [hgo]
  exact keepsTop_of_root_eq (by rw [hw.holding])

theorem agrees_say (paint : Option Terminal.Paint) (text : String) :
    Agrees (σ := σ) h c d (fun _ => True) (r.say paint text) (r.say paint text) :=
  .ite (fun _ => agrees_pure trivial) fun _ => r.agrees_insist _ _

theorem agrees_echo (out : Option String) :
    Agrees (σ := σ) h c d (fun _ => True) (r.echo out) (r.echo out) := by
  unfold echo
  split
  · exact agrees_pure trivial
  · exact agrees_pure trivial
  · exact r.agrees_insist _ _

theorem agrees_lintFailed (name summary : String) (paths : List Path) (out err : Option String) :
    Agrees (σ := σ) h c d (fun _ => True) (r.lintFailed name summary paths out err)
      (r.lintFailed name summary paths out err) := by
  refine (r.agrees_insist _ _).bind fun _ _ => (r.agrees_echo _).bind fun _ _ =>
    (r.agrees_echo _).bind fun _ _ => ?_
  exact .ite (fun _ => r.agrees_insist _ _) fun _ => agrees_pure trivial

end Reporter

namespace Pass

variable {a : Action} {r : Reporter} {workers : Int} {f : Filter} {files : List Path}

theorem agrees_report (scope : Filter.Scope) (t : Target) (result : Result) :
    Agrees (σ := σ) h c d (fun _ => True) (report r f scope t result) (report r f scope t result) := by
  unfold report
  split
  · exact r.agrees_insist _ _
  · exact .ite (fun _ => r.agrees_say _ _) fun _ => r.agrees_lintFailed _ _ _ _ _
  · exact r.agrees_say _ _
  · exact r.agrees_say _ _
  · exact r.agrees_say _ _

theorem agrees_conclude (scope : Filter.Scope) (started : Rat) (results : List (Target × Result)) :
    Agrees (σ := σ) h c d (fun _ => True) (conclude a r f scope started results)
      (conclude a r f scope started results) := by
  have hreports := (Agrees.forM (h := h) (c := c) (d := d) results fun e _ =>
    agrees_report (r := r) (f := f) scope e.1 e.2)
  refine .ite (fun _ => ?_) fun _ => hreports.bind fun _ _ => agrees_pure trivial
  exact agrees_now.bind fun _ _ => (agrees_log _ _).bind fun _ _ => hreports.bind fun _ _ => agrees_pure trivial

section Filter

variable (hf : f.FromTop h)

include hf

theorem agrees_attemptTarget (scope : Filter.Scope) (t : Target) :
    Agrees h c d (fun _ => True) (attemptTarget a f scope t) (attemptTarget a f scope t) := by
  cases a with
  | lint => exact (Filter.agrees_lint hf _ _ _).bind fun _ _ => agrees_pure trivial
  | tidy => exact (Filter.agrees_tidy hf _ _ _).bind fun _ _ => agrees_pure trivial

theorem agrees_runTarget (scope : Filter.Scope) (t : Target) :
    Agrees h c d (fun _ => True) (runTarget a f scope t) (runTarget a f scope t) := by
  refine (agrees_attemptTarget hf scope t).attempt.bind fun outcome _ => ?_
  split
  · exact agrees_pure trivial
  · split
    · exact agrees_fail _
    · exact (agrees_debug _).bind fun _ _ => agrees_pure trivial

theorem agrees_runTargets (scope : Filter.Scope) (targets : List Target) :
    Agrees h c d (fun _ => True) (runTargets a f scope targets) (runTargets a f scope targets) := by
  refine Agrees.bind (P := fun _ => True) ?_ fun attempts _ => ?_
  · refine (Agrees.mapM (Q := fun _ => True) fun t _ => ?_).mono fun _ _ => trivial
    refine Agrees.mono (Agrees.attempt (P := fun _ => True) ?_) fun _ _ => trivial
    exact (agrees_runTarget hf scope t).bind fun _ _ => agrees_pure trivial
  · refine Agrees.bind (P := fun _ => True) ?_ fun results _ => agrees_pure trivial
    exact (Agrees.mapM (Q := fun _ => True) fun _ _ => agrees_ofExcept fun _ _ => trivial).mono
      fun _ _ => trivial

theorem agrees_runFilter (groups : List Group) :
    Agrees h c d (fun _ => True) (runFilter a r workers f files groups)
      (runFilter a r workers f files groups) := by
  have hscope : Agrees (σ := σ) h c d (fun _ => True) (f.resolveScope files) (f.resolveScope files) :=
    (agrees_debug _).bind fun _ _ => agrees_pure trivial
  refine hscope.bind fun scope _ => agrees_now.bind fun started _ => ?_
  have hturn : Agrees (σ := σ) h c d (fun _ => True)
      (runTargets a f scope (Target.pathMap scope files groups) >>= conclude a r f scope started)
      (runTargets a f scope (Target.pathMap scope files groups) >>= conclude a r f scope started) :=
    (agrees_runTargets hf scope _).bind fun results _ => agrees_conclude scope started results
  exact .ite (fun _ => (agrees_fail _).bind fun _ (_ : True) => hturn) fun _ => hturn

end Filter

theorem agrees_announce (f : Filter) :
    Agrees h c d (fun _ => True) (announce f) (announce f : Run σ Unit) := by
  unfold announce
  split
  · exact agrees_fail _
  · exact agrees_debug _

theorem agrees_runFilters {fs : List Filter} (hfs : ∀ f ∈ fs, f.FromTop h) :
    Agrees h c d (fun _ => True) (runFilters a r workers files fs)
      (runFilters a r workers files fs) := by
  induction fs with
  | nil => exact agrees_pure trivial
  | cons f rest ih =>
    refine (agrees_announce f).bind fun _ _ => (agrees_runFilter (hfs f (by simp)) _).bind fun _ _ => ?_
    exact (ih fun f hf => hfs f (by simp [hf])).bind fun _ _ => agrees_pure trivial

variable {p : Pass} {fs : List Filter} {s : Selector} {here there : Path}

theorem agrees_overSelection (hmode : s.mode ≠ .paths) (hs : s.FromTop h)
    (hfs : ∀ f ∈ fs, f.FromTop h) :
    Agrees h c d (fun _ => True) (p.overSelection r workers fs (s.madeIn here))
      (p.overSelection r workers fs (s.madeIn there)) := by
  refine (Selector.agrees_select hs hmode p.paths).bind fun chosen _ => ?_
  split
  · exact (r.agrees_say _ _).bind fun _ _ => agrees_pure trivial
  · exact (agrees_runFilters hfs).bind fun _ _ => agrees_pure trivial

/-- A pass over the whole project asks nothing of git and holds no stash. -/
theorem stash_overSelection (hmode : s.mode = .all) {w : World σ} (hw : w.holding.stash = none) :
    ((p.overSelection r workers fs s).go h w).2.holding.stash = none := by
  have hnote : ∀ e : Event, e.isNote = true → True := fun _ _ => trivial
  have hselect : Moves h (Steady fun _ => True) (s.select p.paths) := by
    have hrest : Moves h (Steady fun _ => True) (do
        debug ("Selecting " ++ s.mode.describe)
        let files := Path.sortedSet (← s.candidates p.paths)
        if files ≠ [] then return some files
        else if s.mode.usesGit then return none
        else fail (.selection (.allExcluded s.mode))) := by
      rw [Selector.candidates, hmode]
      exact ((idle_debug _).mono fun _ _ hw => hw.steady hnote).bind fun _ =>
        ((s.idle_walkFiles _).mono fun _ _ hw => hw.steady hnote).bind fun _ =>
          (moves_pure _).ite ((moves_pure _).ite (moves_fail _))
    exact ((moves_fail _).bind fun _ => hrest).ite hrest
  have hpass : Moves h (Steady fun _ => True) (p.overSelection r workers fs s) := by
    refine hselect.bind fun chosen => ?_
    split
    · exact ((r.yields_say _ _).idle.mono fun _ _ hw => hw.steady hnote).bind fun _ => moves_pure _
    · exact ((steady_runFilters _ _ _ _ _).mono fun _ _ hw => hw.mono fun _ _ => trivial).bind
        fun _ => moves_pure _
  rw [(hpass w).stash, hw]

end Pass

namespace Config

variable {w : World σ} {directory : Path}

theorem looks_isCheckoutRoot (hdirectory : directory.isAbsolute = true) :
    Looks h w (fun _ => True) (isCheckoutRoot directory) := by
  refine Looks.anyM fun p hp => looks_exists? ?_
  obtain ⟨name, -, rfl⟩ := List.mem_map.1 hp
  exact Path.isAbsolute_child hdirectory name

/-- Whether a directory has a configuration is known once it is known which file would hold it. -/
theorem looks_defaultFile (hdirectory : directory.isAbsolute = true) :
    Looks h w (fun file => file.isAbsolute = true ∧
      ∃ b, ∀ here, (exists? file).go (h.startedIn here) w = (.ok b, w)) (defaultFile directory) := by
  have hchild (name : String) : (directory.child name).isAbsolute = true :=
    Path.isAbsolute_child hdirectory name
  have hasked : ∀ p ∈ fileNames.map directory.child, Looks h w (fun _ => True) (exists? p) := by
    intro p hp
    obtain ⟨name, -, rfl⟩ := List.mem_map.1 hp
    exact looks_exists? (hchild name)
  refine (Looks.findM? hasked).bind fun found hfound => ?_
  split
  · obtain ⟨hfile, hthere⟩ := hfound
    obtain ⟨name, -, rfl⟩ := List.mem_map.1 hfile
    exact looks_pure ⟨hchild name, true, hthere⟩
  · exact looks_pure ⟨hchild _, false, hfound _ (List.mem_map.2 ⟨preferredName, by decide, rfl⟩)⟩

theorem looks_load {file : Path} (hfile : file.isAbsolute = true) :
    Looks h w (fun _ => True) (load file) := by
  have hbytes : Looks h w (fun _ => True) (bytesAt file) := by
    refine ⟨(w.tree.bytesAt [] file).mapError (Failure.ofRefusal file), fun here => ?_, fun _ _ => trivial⟩
    rw [bytesAt, go_askTree]
    exact congrArg (fun x => (Except.mapError _ x, w)) (FileTree.bytesAt_of_isAbsolute hfile _)
  refine hbytes.attempt.bind fun outcome _ => ?_
  split
  · exact looks_ofExcept
  · exact looks_fail _
  · exact looks_fail _

/-- A directory of a project, `names` below its root: the root is that of a checkout, and no directory
further down on the way is one or has a configuration of its own. -/
structure Within (h : Host σ) (w : World σ) (root : Location) (names : List String) : Prop where
  sound : w.tree.Sound
  place : w.tree.status [] ⟨.root, root ++ names⟩ = .ok (root ++ names, .directory)
  checkout : (isCheckoutRoot ⟨.root, root⟩).go h w = (.ok true, w)
  unmarked : ∀ between, between ≠ [] → between <+: names →
    (isCheckoutRoot ⟨.root, root ++ between⟩).go h w = (.ok false, w)
  unconfigured : ∀ file ∈ fileNames,
    (exists? (Path.child ⟨.root, root ++ names⟩ file)).go h w = (.ok false, w)

variable {root : Location} {names : List String}

theorem Within.resolve_self (hin : Within h w root names) (here : Location) {between : List String}
    (hbetween : between <+: names) :
    w.tree.resolve here ⟨.root, root ++ between⟩ = .ok ⟨.root, root ++ between⟩ := by
  obtain ⟨rest, rfl⟩ := hbetween
  have hbelow := FileTree.rooted_of_status (FileTree.rooted_originOf_of_isAbsolute rfl) hin.place
  have hrooted : w.tree.Rooted (root ++ between) := fun front name back heq =>
    hbelow front name (back ++ rest) (by rw [← List.append_assoc, heq]; simp)
  have hdirectory : w.tree.get? (root ++ between) = some .directory := by
    cases rest with
    | nil => simpa using (FileTree.status_eq_ok_iff.1 hin.place).2.2
    | cons name rest => exact hbelow (root ++ between) name rest (by simp)
  have hstatus : w.tree.status here ⟨.root, root ++ between⟩ = .ok (root ++ between, .directory) :=
    FileTree.status_rooted hin.sound hrooted hdirectory (by simp)
  exact FileTree.resolve_of_status hin.sound (FileTree.rooted_originOf_of_isAbsolute rfl) hstatus
    (by simp)

theorem Within.go_resolve_root (hin : Within h w root names) (here : Location) :
    (resolve ⟨.root, root⟩).go (h.startedIn here) w = (.ok ⟨.root, root⟩, w) := by
  have hroot := hin.resolve_self here List.nil_prefix
  rw [List.append_nil] at hroot
  exact go_resolve_of_ok hroot

/-- What is asked of a path from the top is answered alike wherever it is asked. -/
theorem go_of_looks {α : Type} {P : α → Prop} {act : Run σ α} (hact : Looks h w P act)
    {r : Except Failure α} (hgo : act.go h w = (r, w)) (here : Location) :
    act.go (h.startedIn here) w = (r, w) := by
  obtain ⟨r', hgo', -⟩ := hact
  rw [hgo' here, ← hgo]
  exact (hgo' h.cwd).symm

theorem Within.nearest (hin : Within h w root names) (here : Location) :
    ((⟨.root, root ++ names⟩ :: Path.parents ⟨.root, root ++ names⟩).findM? isCheckoutRoot).go
      (h.startedIn here) w = (.ok (some ⟨.root, root⟩), w) := by
  obtain ⟨front, heq, hfront⟩ := Path.self_and_parents_down ⟨.root, root⟩ names
  rw [show (⟨.root, root ++ names⟩ : Path) = Path.down ⟨.root, root⟩ names from rfl, heq,
    go_findM?_append _ fun q hq => ?_, List.findM?,
    go_bind_ok (go_of_looks (looks_isCheckoutRoot rfl) hin.checkout here)]
  · rfl
  · obtain ⟨between, hne, hbetween, rfl⟩ := hfront q hq
    exact go_of_looks (looks_isCheckoutRoot rfl) (hin.unmarked between hne hbetween) here

/-- From a directory that has no configuration the search leads up to the root. -/
theorem Within.go_findRoot (hin : Within h w root names) (here : Location) :
    (findRoot none ⟨.root, root ++ names⟩).go (h.startedIn here) w = (.ok ⟨.root, root⟩, w) := by
  have hmissing : ∀ p ∈ fileNames.map (Path.child ⟨.root, root ++ names⟩),
      (exists? p).go (h.startedIn here) w = (.ok false, w) := by
    intro p hp
    obtain ⟨name, hname, rfl⟩ := List.mem_map.1 hp
    exact go_of_looks (looks_exists? rfl) (hin.unconfigured name hname) here
  have hnone := go_findM?_append [] hmissing
  rw [List.append_nil] at hnone
  have hdefault : (defaultFile ⟨.root, root ++ names⟩).go (h.startedIn here) w =
      (.ok (Path.child ⟨.root, root ++ names⟩ preferredName), w) := go_bind_ok hnone _
  rw [findRoot, go_bind_ok hdefault, go_bind_ok (hmissing _ (List.mem_map.2 ⟨_, by decide, rfl⟩)),
    if_neg (by decide), go_bind_ok (hin.nearest here)]
  exact hin.go_resolve_root here

/-- The root has itself for its root, unless the search for its configuration cannot go on. -/
theorem Within.go_findRoot_self (hin : Within h w root names) (here : Location) :
    (∃ e, (findRoot none ⟨.root, root⟩).go (h.startedIn here) w = (.error e, w) ∧
        ∀ there, (defaultFile ⟨.root, root⟩).go (h.startedIn there) w = (.error e, w)) ∨
      (findRoot none ⟨.root, root⟩).go (h.startedIn here) w = (.ok ⟨.root, root⟩, w) := by
  have htop : (Path.mk .root root).isAbsolute = true := rfl
  obtain ⟨r, hgo, hfile⟩ := looks_defaultFile (h := h) (w := w) htop
  cases r with
  | error e => exact .inl ⟨e, go_bind_error (hgo here) _, hgo⟩
  | ok file =>
    obtain ⟨-, b, hthere⟩ := hfile file rfl
    right
    rw [findRoot, go_bind_ok (hgo here), go_bind_ok (hthere here)]
    cases b with
    | true => exact hin.go_resolve_root here
    | false =>
      have hfound : ((⟨.root, root⟩ :: Path.parents ⟨.root, root⟩).findM? isCheckoutRoot).go
          (h.startedIn here) w = (.ok (some ⟨.root, root⟩), w) := by
        rw [List.findM?, go_bind_ok (go_of_looks (looks_isCheckoutRoot rfl) hin.checkout here)]
        rfl
      rw [if_neg (by decide), go_bind_ok hfound]
      exact hin.go_resolve_root here

/-- The configuration of a project is found alike from everywhere, once its root is known. -/
theorem go_loaded (h : Host σ) (w : World σ) (root : Location) : ∃ r w', w'.tree = w.tree ∧
    (∀ l, r = .ok l → l.root = ⟨.root, root⟩) ∧ ∀ here, (do
      let file ← defaultFile ⟨.root, root⟩
      debug ("Loading config from " ++ file.text ++ " (default location)")
      let file ← pure file
      return Loaded.mk ⟨.root, root⟩ file (← load file)).go (h.startedIn here) w = (r, w') := by
  have htop : (Path.mk .root root).isAbsolute = true := rfl
  obtain ⟨r, hgo, hfile⟩ := looks_defaultFile (h := h) (w := w) htop
  cases r with
  | error e => exact ⟨_, _, rfl, by rintro _ ⟨⟩, fun here => go_bind_error (hgo here) _⟩
  | ok file =>
    obtain ⟨_, w', hdebug, -, hw'⟩ := yields_debug (h := h)
      ("Loading config from " ++ file.text ++ " (default location)") w
    obtain ⟨r, hload, hvalue⟩ := (looks_load (h := h) (w := w') (hfile file rfl).1).bind
      (Q := fun l : Loaded => l.root = ⟨.root, root⟩) fun project _ =>
        looks_pure (a := Loaded.mk ⟨.root, root⟩ file project) rfl
    refine ⟨r, w', hw'.tree, hvalue, fun here => ?_⟩
    have hsaid : (debug ("Loading config from " ++ file.text ++ " (default location)")).go
        (h.startedIn here) w = (.ok (), w') := hdebug
    rw [go_bind_ok (hgo here), go_bind_ok hsaid]
    exact hload here

/-- The configuration found does not depend on the directory, and neither does the failure to find one. -/
theorem Within.go_discover (hin : Within h w root names) : ∃ r w', w'.tree = w.tree ∧
    (∀ l, r = .ok l → l.root = ⟨.root, root⟩) ∧
    (discover ⟨.root, root ++ names⟩ none).go (h.startedIn (root ++ names)) w = (r, w') ∧
    (discover ⟨.root, root⟩ none).go (h.startedIn root) w = (r, w') := by
  obtain ⟨r, w', htree, hroot, hloaded⟩ := go_loaded h w root
  refine ⟨r, w', htree, hroot, ?_, ?_⟩
  · rw [discover, go_bind_ok (hin.go_findRoot _)]
    exact hloaded (root ++ names)
  · rcases hin.go_findRoot_self root with ⟨e, hself, hdefault⟩ | hself
    · rw [discover, go_bind_error hself, ← hloaded root]
      exact (go_bind_error (hdefault root) _).symm
    · rw [discover, go_bind_ok hself]
      exact hloaded root

end Config

namespace Selector

variable {mode : Selection.Mode} {root cwd : Path} {w : World σ}

theorem go_start_of_places (hroot : (resolve root).go h w = (.ok root, w))
    (hcwd : (resolve cwd).go h w = (.ok cwd, w)) (exclude : List String) :
    (start mode root (some cwd) exclude none).go h w =
      match Matcher.compile root (exclude ++ vcsDirectories) with
      | .error b => (.error (Failure.ofBadLine b), w)
      | .ok excluder => (.ok ⟨mode, root, cwd, excluder, ⟨root⟩⟩, { w with holding := {} }) := by
  rw [start, go_bind_ok hroot, go_bind_ok (go_cwd h w), Option.getD_some, go_bind_ok hcwd]
  cases Matcher.compile root (exclude ++ vcsDirectories) with
  | error b => exact go_bind_error (go_ofExcept_error _ b h w) _
  | ok excluder => rfl

theorem go_close_of_no_stash (s : Selector) (hw : w.holding.stash = none) :
    s.close.go h w = (.ok (), w) := by
  have hheld : holding.go h w = (.ok w.holding, w) := rfl
  rw [close, go_bind_ok hheld, hw]
  rfl

end Selector

theorem Reporter.go_starting (r : Reporter) (title description : String) (h : Host σ) (w : World σ) :
    ∃ w', Idle w w' ∧ ∀ here,
      (r.starting title description).go (h.startedIn here) w = (.ok (), w') := by
  unfold starting say
  split
  · exact ⟨w, Idle.refl w, fun _ => rfl⟩
  · obtain ⟨_, w', hgo, -, hw'⟩ :=
      r.yields_insist (h := h) none (r.glyphs.ring ++ " " ++ title ++ " " ++ description) w
    exact ⟨w', hw', fun _ => hgo⟩

namespace Pass

variable {w₀ w : World σ} {root : Location} {names : List String} {p : Pass} {l : Config.Loaded}

theorem root_of_filters {fs : List Filter} (hfs : p.filters l = .ok fs) {f : Filter} (hf : f ∈ fs) :
    f.root = l.root := by
  have hloaded : l.filters p.choice = .ok fs := by
    unfold filters at hfs
    split at hfs
    · cases hfs
    · exact hfs
  obtain ⟨e, -, hbuilt⟩ := Filter.of_mem_mapM_ok hloaded hf
  obtain ⟨params, -, hbuilt⟩ := of_bind_ok hbuilt
  exact (Filter.of_build hbuilt).2.1

theorem mode_eq_all {m : Selection.Mode} (hmode : m ≠ .paths) (hasks : ¬ m.usesGit = true) : m = .all := by
  cases m with
  | all => rfl
  | paths => exact absurd rfl hmode
  | _ => exact absurd rfl hasks

/-- What a pass does with its selector, and the end of the selection, are alike wherever it was made. -/
theorem go_ensuring_within {s : Selector} {fs : List Filter} (hmode : s.mode ≠ .paths) (hs : s.FromTop h)
    (hfs : ∀ f ∈ fs, f.FromTop h) (hclean : w.TopResolved) (hstash : w.holding.stash = none)
    (r : Reporter) (workers : Int) (c d : Location) :
    (ensuring (p.overSelection r workers fs (s.madeIn ⟨.root, c⟩)) (s.madeIn ⟨.root, c⟩).close).go
        (h.startedIn c) w =
      (ensuring (p.overSelection r workers fs (s.madeIn ⟨.root, d⟩)) (s.madeIn ⟨.root, d⟩).close).go
        (h.startedIn d) w := by
  have hchosen : Agrees h c d (fun _ => True) (p.overSelection r workers fs (s.madeIn ⟨.root, c⟩))
      (p.overSelection r workers fs (s.madeIn ⟨.root, d⟩)) := agrees_overSelection hmode hs hfs
  by_cases hasks : s.mode.usesGit = true
  · have hclosed : Agrees h c d (fun _ => True) (s.madeIn ⟨.root, c⟩).close (s.madeIn ⟨.root, d⟩).close :=
      Selector.agrees_close hs hasks
    exact (hchosen.ensuring hclosed w hclean).same
  -- here git may not be found from the top, but nothing was put aside that it would bring back
  · have hall : (s.madeIn ⟨.root, c⟩).mode = .all := mode_eq_all hmode hasks
    have hheld : ((p.overSelection r workers fs (s.madeIn ⟨.root, c⟩)).go (h.startedIn c) w).2.holding.stash
        = none := stash_overSelection hall hstash
    have hsame := (hchosen w hclean).same
    rw [go_ensuring, go_ensuring, Selector.go_close_of_no_stash _ hheld, ← hsame,
      Selector.go_close_of_no_stash _ hheld]

theorem go_run_within (hin : Config.Within h w₀ root names) (htree : w.tree = w₀.tree)
    (hl : l.root = ⟨.root, root⟩) (hmode : p.mode ≠ .paths)
    (hgit : p.mode.usesGit = true → h.FindsGit ∧ Git.TellsTop ⟨⟨.root, root⟩⟩ h)
    (hfs : ∀ fs, p.filters l = .ok fs → ∀ f ∈ fs, f.FindsCommand h) (r : Reporter) (workers : Int) :
    (p.run l r workers ⟨.root, root ++ names⟩).go (h.startedIn (root ++ names)) w =
      (p.run l r workers ⟨.root, root⟩).go (h.startedIn root) w := by
  obtain ⟨w₁, hw₁, hbegun⟩ := r.go_starting p.action.title p.mode.describe h w
  rw [run, run, go_bind_ok (hbegun _), go_bind_ok (hbegun _)]
  cases hfilters : p.filters l with
  | error e => rw [go_bind_error (go_ofExcept_error _ e _ _), go_bind_error (go_ofExcept_error _ e _ _)]
  | ok fs =>
    have hself (here : Location) {between : List String} (hbetween : between <+: names) :
        (resolve ⟨.root, root ++ between⟩).go (h.startedIn here) w₁ =
          (.ok ⟨.root, root ++ between⟩, w₁) := by
      refine go_resolve_of_ok ?_
      rw [hw₁.tree, htree]
      exact hin.resolve_self here hbetween
    have hroot (here : Location) : (resolve ⟨.root, root⟩).go (h.startedIn here) w₁ =
        (.ok ⟨.root, root⟩, w₁) := by
      simpa using hself here List.nil_prefix
    have hfilters : ∀ f ∈ fs, f.FromTop h := fun f hf =>
      ⟨by rw [root_of_filters hfilters hf, hl]; rfl, hfs fs hfilters f hf⟩
    rw [go_bind_ok (go_ofExcept_ok id fs _ w₁), go_bind_ok (go_ofExcept_ok id fs _ w₁), hl, go_bind,
      go_bind, Selector.go_start_of_places (hroot _) (hself _ List.prefix_rfl),
      Selector.go_start_of_places (hroot _) (hroot _)]
    cases Matcher.compile ⟨.root, root⟩ (l.project.excludes ++ vcsDirectories) with
    | error b => rfl
    | ok excluder =>
      let s : Selector := ⟨p.mode, ⟨.root, root⟩, ⟨.root, root⟩, excluder, ⟨⟨.root, root⟩⟩⟩
      have hs : s.FromTop h := ⟨rfl, rfl, fun hmode => (hgit hmode).1, fun hmode => (hgit hmode).2⟩
      have hclean : ({ w₁ with holding := {} } : World σ).TopResolved := by
        rintro top ⟨⟩
      exact go_ensuring_within (s := s) hmode hs hfilters hclean rfl r workers _ _

end Pass

/-- A pass goes the same way from every directory of a project as from its root: the same commands are
started in the same places, the same files are changed, the same is said, and it ends alike. Only where a
program is looked for along a path that does not start from the top does the directory matter. -/
theorem Cli.runPass_within {w : World σ} {root : Location} {names : List String} {p : Pass}
    {s : Cli.Settings} (hin : Config.Within h w root names) (hconfig : s.config = none)
    (hmode : p.mode ≠ .paths)
    (hgit : p.mode.usesGit = true → h.FindsGit ∧ Git.TellsTop ⟨⟨.root, root⟩⟩ h)
    (hfs : ∀ l w', (Config.discover ⟨.root, root⟩ none).go (h.startedIn root) w = (.ok l, w') →
      ∀ fs, p.filters l = .ok fs → ∀ f ∈ fs, f.FindsCommand h) (processors : Nat) (r : Reporter) :
    (Cli.runPass p s processors r).go (h.startedIn (root ++ names)) w =
      (Cli.runPass p s processors r).go (h.startedIn root) w := by
  obtain ⟨found, w', htree, hroot, hbelow, hself⟩ := hin.go_discover
  rw [Cli.runPass, go_bind_ok (go_cwd _ w), go_bind_ok (go_cwd _ w), hconfig]
  cases found with
  | error e => exact (go_bind_error hbelow _).trans (go_bind_error hself _).symm
  | ok l =>
    refine (go_bind_ok hbelow _).trans (Eq.trans ?_ (go_bind_ok hself _).symm)
    exact Pass.go_run_within hin htree (hroot l rfl) hmode hgit (hfs l w' hself) r _

namespace Sample

/-- The only command of the project is this program. -/
def configFor (program : String) : String :=
  "[commands.check]\ntype = \"lint\"\ninclude = \"*.py\"\ncmd = \"" ++ program ++ "\"\n"

def nested (program : String) : World Script := { world script with tree := ⟨[(["p"], .directory),
  (["p", ".git"], .directory), (["p", "gemlint.toml"], .file (configFor program).toUTF8 false),
  (["p", "a.py"], .file .empty false), (["p", "tool"], .file .empty true), (["p", "c"], .directory),
  (["bin"], .directory), (["bin", "tool"], .file .empty true)]⟩ }

/-- Git knows of one change, whatever has happened. -/
def gitHost : Host Script := { host with git := some fun args _ t mind =>
  (.ok (if args = ["rev-parse", "--show-toplevel"] then "/p\n" else "a.py\n"), t, mind) }

def changed : Pass := { action := .lint, mode := .modified }

end Sample

open Sample in
theorem within_nested (program : String) (hsound : (nested program).tree.Sound) :
    Config.Within gitHost (nested program) ["p"] ["c"] where
  sound := hsound
  place := by rfl
  checkout := by rfl
  unmarked between hne hbetween := by
    rcases List.prefix_cons_iff.1 hbetween with rfl | ⟨rest, rfl, hrest⟩
    · exact absurd rfl hne
    · rw [List.prefix_nil.1 hrest]
      rfl
  unconfigured file hfile := by
    rcases List.mem_cons.1 hfile with rfl | hfile
    · rfl
    · rw [List.mem_singleton.1 hfile]
      rfl

open Sample in
theorem tellsTop_gitHost (g : Git) : g.TellsTop gitHost := by
  intro here w out w' hask line hline
  have hout : out = "/p\n" := by
    cases hask
    rfl
  subst hout
  cases hline
  decide

open Sample in
/-- A program that is named by a path of its own is looked for from the directory. -/
theorem Cli.not_runPass_within : ¬ ∀ (p : Pass) (s : Cli.Settings) (h : Host Script) (w : World Script)
    (root : Location) (names : List String) (processors : Nat) (r : Reporter),
    Config.Within h w root names → s.config = none → p.mode ≠ .paths →
      (p.mode.usesGit = true → h.FindsGit ∧ Git.TellsTop ⟨⟨.root, root⟩⟩ h) →
      (Cli.runPass p s processors r).go (h.startedIn (root ++ names)) w =
        (Cli.runPass p s processors r).go (h.startedIn root) w := by
  intro hall
  have hfails : (Cli.runPass changed {} 1 {}).comesTo (gitHost.startedIn ["p", "c"]) (nested "./tool")
      (fun exit w => decide (exit.status = .failures) && w.starts.isEmpty) = true := by decide +kernel
  have hpasses : (Cli.runPass changed {} 1 {}).comesTo (gitHost.startedIn ["p"]) (nested "./tool")
      (fun exit w => decide (exit.status = .ok) && w.starts.length == 1) = true := by decide +kernel
  obtain ⟨exit, w, hbelow, hfailed⟩ := of_comesTo hfails
  obtain ⟨exit', w', hself, hpassed⟩ := of_comesTo hpasses
  have hsame := hall changed {} gitHost (nested "./tool") ["p"] ["c"] 1 {}
    (within_nested "./tool" (by decide +kernel)) rfl (by decide)
    fun _ => ⟨nofun, tellsTop_gitHost _⟩
  cases (hbelow.symm.trans hsame).trans hself
  simp only [Bool.and_eq_true, decide_eq_true_eq] at hfailed hpassed
  cases hfailed.1.symm.trans hpassed.1

open Sample in
theorem Cli.runPass_within_nested :
    Config.Within gitHost (nested "tool") ["p"] ["c"] ∧
      ((Cli.runPass changed {} 1 {}).go (gitHost.startedIn ["p", "c"]) (nested "tool")).2.starts.length = 1 ∧
      (Cli.runPass changed {} 1 {}).go (gitHost.startedIn ["p", "c"]) (nested "tool") =
        (Cli.runPass changed {} 1 {}).go (gitHost.startedIn ["p"]) (nested "tool") := by
  have hin := within_nested "tool" (by decide +kernel)
  have hfound : (Config.discover root none).comesTo (gitHost.startedIn ["p"]) (nested "tool")
      (fun l _ => match changed.filters l with
        | .ok fs => fs.all fun f => decide (f.cmd = ["tool"] ∧ f.params.env = [])
        | .error _ => true) = true := by decide +kernel
  refine ⟨hin, by decide +kernel, Cli.runPass_within hin rfl (by decide)
    (fun _ => ⟨nofun, tellsTop_gitHost _⟩) (fun l w' hl fs hfs f hf => ?_) 1 {}⟩
  obtain ⟨l', w'', hl', hcommands⟩ := of_comesTo hfound
  cases hl'.symm.trans hl
  rw [hfs, List.all_eq_true] at hcommands
  obtain ⟨hcmd, henv⟩ := of_decide_eq_true (hcommands f hf)
  refine Filter.findsCommand_of_cmd hcmd ?_
  rw [henv]
  decide +kernel

end LintRunner
