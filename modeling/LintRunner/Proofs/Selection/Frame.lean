import LintRunner.Proofs.Run.Start
import LintRunner.Selection.Selector

/-! What choosing files leaves behind besides the files: notes, questions to git, and git's own
starts where git is a program like any other. Only the two questions about the stash touch it. -/

namespace LintRunner

variable {σ α : Type} {h : Host σ} {P : Event → Prop}

/-- The start of git itself. -/
def Host.StartsGit (h : Host σ) (s : Spawn) : Prop :=
  ∃ exe ∈ Exec.candidates "git" (Exec.searchPath h.env), s.argv.head? = some exe

/-- `P` holds of whatever is said, and of git's own starts if git is started at all. -/
structure Tolerates (h : Host σ) (P : Event → Prop) : Prop where
  note : ∀ e : Event, e.isNote = true → P e
  git : h.git = none → ∀ s outcome, h.StartsGit s → P (.spawned s outcome)

open World Run

theorem Tolerates.idle (hP : Tolerates h P) {act : Run σ α} (hact : Moves h Idle act) :
    Moves h (Steady P) act := hact.mono fun _ _ hw => hw.steady hP.note

theorem Tolerates.extends_ (hP : Tolerates h P) {act : Run σ α} (hact : Moves h Idle act) :
    Moves h (Extends P) act := (hP.idle hact).mono fun _ _ hw => hw.extends_

/-- No process but git has been started. -/
def GitOnly (h : Host σ) (e : Event) : Prop := ∀ s, e.start? = some s → h.StartsGit s

theorem gitOnly_asked (args : List String) (outcome : Except Failure String) :
    GitOnly h (.asked args outcome) := by
  rintro s ⟨⟩

theorem tolerates_gitOnly : Tolerates h (GitOnly h) where
  note e he s hs := by
    rw [Event.start?_of_isNote he] at hs
    cases hs
  git _ s outcome hs := by
    rintro s' ⟨⟩
    exact hs

theorem starts_of_gitOnly {w w' : World σ} (hw : Extends (GitOnly h) w w') :
    ∃ ss, w'.starts = w.starts ++ ss ∧ ∀ s ∈ ss, h.StartsGit s := by
  obtain ⟨new, hs, hnew⟩ := hw.starts
  refine ⟨_, hs, ?_⟩
  intro s hm
  obtain ⟨e, he, hes⟩ := List.mem_filterMap.1 hm
  exact hnew e he s hes

namespace Git

variable (g : Git) (hP : Tolerates h P)

include hP

theorem steady_answer (args : List String) : Moves h (Steady P) (g.answer args) := by
  intro w
  rw [answer, go_bind_ok (go_host h w)]
  cases hgit : h.git with
  | none =>
    refine (Exec.steady_run hP.note fun s outcome hs => ?_).bind (fun _ => moves_pure _) w
    obtain ⟨exe, hexe, hargv⟩ := hs
    exact hP.git hgit s outcome ⟨exe, hexe, by rw [hargv]; rfl⟩
  | some respond =>
    have hchange (outcome : Except String String × FileTree × σ) : Moves h (Steady P) (do
        Run.change fun w => { w with tree := outcome.2.1, mind := outcome.2.2 }
        ofExcept (fun text => .exec (.reported text)) outcome.1) :=
      Moves.bind (fun w => ⟨rfl, Extends.refl (P := P) w⟩) fun _ => moves_ofExcept _ _
    exact hchange (respond args g.cwd w.tree w.mind) w

/-- A question leaves a note of itself, and the stash where it was as far as the run knows. -/
theorem steady_ask {args : List String} (hask : ∀ outcome, P (.asked args outcome)) :
    Moves h (Steady P) (g.ask args) := by
  refine (g.steady_answer hP args).attempt.bind fun outcome => ?_
  refine Moves.bind (fun w => ⟨rfl, extends_record (hask outcome) w⟩) fun _ => moves_ofExcept _ _

variable (hask : ∀ args outcome, args.head? ≠ some "stash" → P (.asked args outcome))

include hask

theorem steady_root? : Moves h (Steady P) g.root? := by
  refine (g.steady_ask hP fun outcome => hask _ outcome (by decide)).attempt.bind fun r => ?_
  split
  · exact moves_pure _
  · exact (hP.idle (idle_debug _)).bind fun _ => moves_pure _
  · exact moves_fail _

end Git

namespace Selector

variable (s : Selector)

theorem idle_addFound (files : List Path) (found : Path) : Moves h Idle (s.addFound files found) :=
  (moves_ofExcept _ _).bind fun _ => moves_pure _

theorem idle_walkFiles (base : Path) : Moves h Idle (s.walkFiles base) :=
  (Walker.idle_start _).bind fun v => v.idle_foldFiles s.idle_addFound base []

theorem idle_filesAt (requested : Path) : Moves h Idle (s.filesAt requested) := by
  have hrest : Moves h Idle (do
      let p ← s.relativeToRoot (s.cwd / requested)
      let isDirectory ← isDirectory? (s.cwd / requested)
      if s.excluder.covers p isDirectory then
        debug ("Skipping excluded path " ++ p.text)
        return []
      else if isDirectory then s.walkFiles (← resolve (s.cwd / requested))
      else return [p]) := by
    refine (moves_ofExcept _ _).bind fun p => (idle_askTree _ _).bind fun b => ?_
    refine ((idle_debug _).bind fun _ => moves_pure _).ite (Moves.ite ?_ (moves_pure _))
    exact (idle_resolve _).bind fun _ => s.idle_walkFiles _
  refine (idle_askTree _ _).bind fun b => ?_
  exact hrest.ite ((moves_fail _).bind fun _ => hrest)

theorem idle_explicitFiles (requested : List Path) : Moves h Idle (s.explicitFiles requested) :=
  (idle_debug _).bind fun _ => (Moves.mapM s.idle_filesAt _).bind fun _ => moves_pure _

theorem idle_fileReported (top : Path) (entry : String) : Moves h Idle (s.fileReported top entry) := by
  refine (idle_askTree _ _).bind fun b => Moves.ite ?_ ((idle_debug _).bind fun _ => moves_pure _)
  split
  · exact (idle_debug _).bind fun _ => moves_pure _
  · exact moves_pure _

section Steady

variable (hP : Tolerates h P)
  (hask : ∀ args outcome, args.head? ≠ some "stash" → P (.asked args outcome))

include hP hask

theorem steady_repositoryRoot : Moves h (Steady P) s.repositoryRoot := by
  refine (moves_world.bind fun _ => moves_pure _).bind fun held => ?_
  split
  · exact moves_pure _
  · refine (s.git.steady_root? hP hask).bind fun top => ?_
    split
    · exact moves_fail _
    · exact (hP.idle (idle_resolve _)).bind fun root =>
        Moves.bind (fun w => ⟨rfl, Extends.refl (P := P) w⟩) fun _ => moves_pure _

theorem steady_filesReported (entries : List String) :
    Moves h (Steady P) (s.filesReported entries) :=
  (s.steady_repositoryRoot hP hask).bind fun _ =>
    (Moves.mapM (fun _ => hP.idle (s.idle_fileReported _ _)) _).bind fun _ => moves_pure _

end Steady

theorem extends_hold (f : Holding → Holding) : Moves h (Extends P) (hold f) :=
  fun w => Extends.refl (P := P) w

section Extends

variable (hP : Tolerates h P)

include hP

theorem extends_ask {args : List String} (hask : ∀ outcome, P (.asked args outcome)) :
    Moves h (Extends P) (s.git.ask args) :=
  (s.git.steady_ask hP hask).mono fun _ _ hw => hw.extends_

section Choice

-- a choice of files never asks for a stash back
variable (hask : ∀ args outcome, args ≠ Git.popArgs → P (.asked args outcome))

include hask

theorem extends_repositoryRoot : Moves h (Extends P) s.repositoryRoot := by
  refine (s.steady_repositoryRoot hP fun args outcome ha => hask args outcome ?_).mono
    fun _ _ hw => hw.extends_
  rintro rfl
  exact ha rfl

theorem extends_filesReported (entries : List String) :
    Moves h (Extends P) (s.filesReported entries) :=
  (s.extends_repositoryRoot hP hask).bind fun _ =>
    (Moves.mapM (fun _ => hP.extends_ (s.idle_fileReported _ _)) _).bind fun _ => moves_pure _

theorem extends_stashUnstaged : Moves h (Extends P) s.stashUnstaged := by
  refine (s.extends_repositoryRoot hP hask).bind fun top => ?_
  refine (hP.extends_ (idle_askTree _ _)).bind fun merging =>
    (hP.extends_ (idle_debug _)).ite ?_
  refine (moves_world.bind fun _ => moves_pure _).bind fun held => Moves.ite ?_ (moves_pure _)
  refine Moves.bind ?_ fun _ => extends_hold _
  refine (s.extends_ask hP fun outcome => hask _ outcome (by decide)).bind fun out => ?_
  exact ((hP.extends_ (idle_debug _)).bind fun _ => moves_pure _).ite
    ((hP.extends_ (idle_debug _)).bind fun _ => moves_pure _)

theorem extends_candidates (requested : List Path) :
    Moves h (Extends P) (s.candidates requested) := by
  have hreported {args : List String} (ha : args ≠ Git.popArgs) :
      Moves h (Extends P) (Git.linesOf <$> s.git.ask args >>= s.filesReported) :=
    ((s.extends_ask hP fun outcome => hask _ outcome ha).map _).bind (s.extends_filesReported hP hask)
  unfold candidates
  split
  · exact hP.extends_ (s.idle_walkFiles _)
  · exact hP.extends_ (s.idle_explicitFiles _)
  · exact hreported (by decide)
  · exact hreported (by simp [Git.popArgs])
  · exact hreported (by decide)
  · exact (s.extends_stashUnstaged hP hask).bind fun _ => hreported (by decide)

theorem extends_select (requested : List Path) : Moves h (Extends P) (s.select requested) := by
  have hrest : Moves h (Extends P) (do
      debug ("Selecting " ++ s.mode.describe)
      let files := Path.sortedSet (← s.candidates requested)
      if files ≠ [] then return some files
      else if s.mode.usesGit then return none
      else fail (.selection (.allExcluded s.mode))) :=
    (hP.extends_ (idle_debug _)).bind fun _ => (s.extends_candidates hP hask _).bind fun _ =>
      (moves_pure _).ite ((moves_pure _).ite (moves_fail _))
  exact ((moves_fail _).bind fun _ => hrest).ite hrest

end Choice

theorem extends_close (hask : ∀ args outcome, P (.asked args outcome)) :
    Moves h (Extends P) s.close := by
  refine (moves_world.bind fun _ => moves_pure _).bind fun held => ?_
  split
  · exact moves_pure _
  · refine (extends_hold _).bind fun _ => Moves.bind ?_ fun _ => extends_hold _
    refine Moves.ite ?_ (moves_pure _)
    refine ((s.extends_ask hP (hask _)).bind fun _ => moves_pure _).attempt.bind fun r => ?_
    split
    · exact moves_pure _
    · exact hP.extends_ (idle_log _ _)
    · exact moves_fail _

end Extends

/-- Closing a selection starts nothing but git. -/
theorem starts_close (s : Selector) (h : Host σ) (w : World σ) :
    ∃ after, (s.close.go h w).2.starts = w.starts ++ after ∧ ∀ e ∈ after, h.StartsGit e :=
  starts_of_gitOnly (s.extends_close tolerates_gitOnly (gitOnly_asked (h := h)) w)

/-- A choice is prepared from where its paths lead, and from what excludes files of the project. -/
theorem of_start_ok {mode : Selection.Mode} {root : Path} {cwd : Option Path} {exclude : List String}
    {git : Option Git} {s : Selector} {w w' : World σ}
    (hstart : (start mode root cwd exclude git).go h w = (.ok s, w')) :
    s.mode = mode ∧ w.tree.resolve h.cwd root = .ok s.root ∧
      w.tree.resolve h.cwd (cwd.getD ⟨.root, h.cwd⟩) = .ok s.cwd ∧
      Matcher.compile s.root (exclude ++ vcsDirectories) = .ok s.excluder ∧
      w' = { w with holding := {} } := by
  rw [start] at hstart
  obtain ⟨top, w₁, htop, hafter⟩ := of_go_bind_ok hstart
  obtain ⟨rfl, hroot⟩ := of_go_resolve_ok htop
  rw [go_bind_ok (go_cwd h _)] at hafter
  obtain ⟨here, w₂, hhere, hstarted⟩ := of_go_bind_ok hafter
  obtain ⟨rfl, hcwd⟩ := of_go_resolve_ok hhere
  rw [go_bind, go_ofExcept] at hstarted
  cases hm : Matcher.compile top (exclude ++ vcsDirectories) with
  | error b =>
    rw [hm] at hstarted
    cases hstarted
  | ok excluder =>
    rw [hm] at hstarted
    cases hstarted
    exact ⟨rfl, hroot, hcwd, hm, rfl⟩

/-- Preparing a choice says nothing, and holds nothing once it is done. -/
theorem start_cases (mode : Selection.Mode) (root cwd : Path) (exclude : List String) (h : Host σ)
    (w : World σ) :
    (∃ e, (start mode root (some cwd) exclude none).go h w = (.error e, w)) ∨
      ∃ s, (start mode root (some cwd) exclude none).go h w = (.ok s, { w with holding := {} }) ∧
        s.mode = mode ∧ Matcher.compile s.root (exclude ++ vcsDirectories) = .ok s.excluder := by
  have hroot := go_resolve root h w
  have hcwd := go_resolve cwd h w
  cases hr : w.tree.resolve h.cwd root with
  | error c =>
    rw [hr] at hroot
    exact .inl ⟨_, go_bind_error hroot _⟩
  | ok top =>
    rw [hr] at hroot
    rw [start, go_bind_ok hroot, go_bind_ok (go_cwd h w), Option.getD_some]
    cases hc : w.tree.resolve h.cwd cwd with
    | error c =>
      rw [hc] at hcwd
      exact .inl ⟨_, go_bind_error hcwd _⟩
    | ok here =>
      rw [hc] at hcwd
      rw [go_bind_ok hcwd]
      cases hm : Matcher.compile top (exclude ++ vcsDirectories) with
      | error b => exact .inl ⟨_, go_bind_error (go_ofExcept_error _ b h w) _⟩
      | ok excluder => exact .inr ⟨_, rfl, rfl, hm⟩

end Selector

end LintRunner
