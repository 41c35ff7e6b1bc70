import LintRunner.Proofs.Filter.Kinds
import LintRunner.Proofs.Selection.Balance

/-! A pass that fails for its configuration, its choice of files or a question to git fails before the
first filter has its turn. What the filters do to their targets can end a pass too, but never in one of
these ways, and neither can the end of the selection. -/

namespace LintRunner

open World Run Pass

variable {σ : Type} {h : Host σ} {w w' : World σ} {e : Failure} {E : Failure → Prop}

namespace Failure

def isConfig : Failure → Bool
  | .config _ => true
  | _ => false

/-- The configuration or the choice of files is to blame. -/
def isSetup : Failure → Bool
  | .config _ => true
  | .selection _ => true
  | _ => false

/-- As `isSetup`, or a program is. -/
def isEarly : Failure → Bool
  | .exec _ => true
  | e => e.isSetup

theorem ofTarget_isConfig : OfTarget (·.isConfig = false) where
  os _ := rfl
  exec _ := rfl
  crash _ := rfl
  vanished _ := rfl

theorem ofTarget_isSetup : OfTarget (·.isSetup = false) where
  os _ := rfl
  exec _ := rfl
  crash _ := rfl
  vanished _ := rfl

end Failure

section Targets

variable {a : Action} {f : Filter} {p : Path} {files : List Path} {scope : Filter.Scope}

theorem Filter.fails_checked {β : Type} {k : Run σ (Option β)} (hk : Fails h (·.isSetup = false) k) :
    Fails h (·.isSetup = false) (do
      f.requireKind a
      f.checkScope p scope
      if ← f.applies p files scope then k else return none) := by
  have hkind : Fails h (·.isSetup = false) (f.requireKind a) := (fails_pure _).ite (fails_fail rfl)
  refine hkind.bind fun _ => Fails.bind ?_ fun _ => ?_
  · have hask (ask : FileTree → Location → Path → Except Refusal Bool) :
        Fails h (·.isSetup = false) (askTree ask (f.root / p)) :=
      fails_askTree (Failure.ofTarget_isSetup.refusal _)
    cases scope with
    | root => exact fails_pure _
    | dirs => exact (hask _).bind fun _ => Fails.ite (fails_fail rfl) (fails_pure _)
    | files => exact (hask _).bind fun _ => Fails.ite (fails_fail rfl) (fails_pure _)
  · exact (f.yields_applies p files scope).fails.bind fun _ => hk.ite (fails_pure _)

theorem Pass.fails_attemptTarget (t : Target) :
    Fails h (·.isSetup = false) (attemptTarget a f scope t) := by
  have hstart (a : Action) : Fails h (·.isSetup = false) (f.start a t.path t.files scope) :=
    Filter.fails_start Failure.ofTarget_isSetup fun e he => by
      cases Filter.unrequested_of_requestFor he <;> rfl
  cases a with
  | lint =>
    exact (Filter.fails_checked ((hstart _).bind fun _ => fails_pure _)).bind fun _ => fails_pure _
  | tidy =>
    refine (Filter.fails_checked (Fails.ite ?_ ?_)).bind fun _ => fails_pure _
    · exact (hstart _).bind fun _ => fails_pure _
    · refine (Snapshot.fails_capture Failure.ofTarget_isSetup _ _ _).bind fun before => ?_
      refine (hstart _).bind fun _ => ?_
      exact (Snapshot.fails_changed Failure.ofTarget_isSetup _ _).bind fun _ => fails_pure _

/-- A command that cannot be run is the target's own affair. -/
theorem Attempt.not_early_of_kept {x : Attempt σ} (hx : x.kept h a = .error e) : e.isEarly = false := by
  unfold kept at hx
  cases hending : x.ending h a with
  | ok r =>
    rw [hending] at hx
    cases hx
  | error e' =>
    have hsetup := Pass.fails_attemptTarget x.target x.begun e' hending
    rw [hending] at hx
    cases hrecorded : recorded? e' with
    | some reason =>
      simp only [hrecorded] at hx
      cases hx
    | none =>
      simp only [hrecorded] at hx
      cases hx
      cases e with
      | config _ => cases hsetup
      | selection _ => cases hsetup
      | exec _ => cases hrecorded
      | _ => rfl

theorem Round.not_early_of_results {x : Round σ} (hx : x.results h a = .error e) :
    e.isEarly = false := by
  unfold results at hx
  cases hends : ((x.attempts h a).map fun t : Attempt σ => (t.kept h a).map (t.target, ·)).mapM id with
  | ok results =>
    rw [hends] at hx
    cases hx
  | error e' =>
    rw [hends] at hx
    cases hx
    obtain ⟨front, end_, back, hsplit, -, hend⟩ := of_mapM_error hends
    obtain ⟨t, -, rfl⟩ := List.mem_map.1 (hsplit ▸ List.mem_append_right front List.mem_cons_self)
    cases hkept : t.kept h a with
    | error e' =>
      rw [hkept] at hend
      cases hend
      exact Attempt.not_early_of_kept hkept
    | ok r =>
      rw [hkept] at hend
      cases hend

theorem Pass.fails_runFilter (r : Reporter) (workers : Int) :
    Fails h (·.isEarly = false) (runFilter a r workers f files (Group.make files)) := by
  intro w e he
  rcases go_runFilter a r workers f files h w with ⟨e', hworkers, hfail⟩ | ⟨w', -, hturn⟩
  · -- there is no worker, which is nobody's early failure
    obtain ⟨_, w₁, hscope, rfl, -⟩ := f.yields_resolveScope files (h := h) w
    obtain ⟨started, w₂, hnow, -, -⟩ := yields_now (h := h) w₁
    rw [runFilter, go_bind_ok hscope, go_bind_ok hnow, if_pos hworkers] at he
    cases he
    rfl
  · rw [hturn] at he
    cases hresults : (Round.opened h files w f).results h a with
    | ok results =>
      rw [hresults] at he
      cases he
    | error e' =>
      rw [hresults] at he
      cases he
      exact Round.not_early_of_results hresults

theorem Pass.fails_announce : Fails h (·.isEarly = false) (announce f) := by
  unfold announce
  split
  · exact fails_fail rfl
  · exact (yields_debug _).fails

theorem Pass.fails_runFilters (r : Reporter) (workers : Int) (fs : List Filter) :
    Fails h (·.isEarly = false) (runFilters a r workers files fs) := by
  induction fs with
  | nil => exact fails_pure _
  | cons f rest ih =>
    exact fails_announce.bind fun _ => (fails_runFilter r workers).bind fun _ =>
      ih.bind fun _ => fails_pure _

end Targets

namespace Git

variable (g : Git)

theorem fails_answer (hE : Failure.OfTarget E) (args : List String) : Fails h E (g.answer args) := by
  refine fails_host.bind fun host => ?_
  split
  · exact (Exec.fails_run hE _).bind fun _ => fails_pure _
  · refine fails_world.bind fun _ => (fails_change _).bind fun _ => ?_
    exact fails_ofExcept fun _ _ => hE.exec _

theorem fails_ask (hE : Failure.OfTarget E) (args : List String) : Fails h E (g.ask args) :=
  (g.fails_answer hE args).attempt_bind fun _ hr => (fails_change _).bind fun _ => fails_ofExcept hr

theorem fails_root? (hE : Failure.OfTarget E) : Fails h E g.root? := by
  refine (g.fails_ask hE _).attempt_bind fun r hr => ?_
  split
  · exact fails_pure _
  · exact (yields_debug _).fails.bind fun _ => fails_pure _
  · exact fails_fail (hr _ rfl)

/-- That git cannot bring a stash back is nobody's failure. -/
theorem fails_release (held : Bool) : Fails h (·.isEarly = false) (g.release held) := by
  have hpop : Fails h (·.isSetup = false) g.pop :=
    (g.fails_ask Failure.ofTarget_isSetup _).bind fun _ => fails_pure _
  refine Fails.ite (hpop.attempt_bind fun r hr => ?_) (fails_pure _)
  split
  · exact fails_pure _
  · exact (yields_log _ _).fails
  · next e hother =>
    have hsetup := hr e rfl
    refine fails_fail ?_
    cases e with
    | exec x => exact absurd rfl (hother x)
    | _ => exact hsetup

end Git

namespace Selector

variable (s : Selector) (requested : List Path)

section Git

variable (hE : Failure.OfTarget E) (hselection : ∀ root, E (.selection (.noRepository root)))

include hE

theorem fails_fileReported (top : Path) (entry : String) : Fails h E (s.fileReported top entry) := by
  refine (fails_askTree (hE.refusal _)).bind fun there => Fails.ite ?_ ?_
  · split
    · exact (yields_debug _).fails.bind fun _ => fails_pure _
    · exact fails_pure _
  · exact (yields_debug _).fails.bind fun _ => fails_pure _

include hselection

theorem fails_repositoryRoot : Fails h E s.repositoryRoot := by
  refine (fails_world.bind fun _ => fails_pure _).bind fun held => ?_
  split
  · exact fails_pure _
  · refine (s.git.fails_root? hE).bind fun top => ?_
    split
    · exact fails_fail (hselection _)
    · exact (fails_resolve hE.crash).bind fun _ => (fails_change _).bind fun _ => fails_pure _

theorem fails_stashUnstaged : Fails h E s.stashUnstaged := by
  have hdebug (message : String) : Fails h E (debug message) := (yields_debug message).fails
  refine (s.fails_repositoryRoot hE hselection).bind fun top => ?_
  refine (fails_askTree (hE.refusal _)).bind fun merging => (hdebug _).ite ?_
  refine (fails_world.bind fun _ => fails_pure _).bind fun held => Fails.ite ?_ (fails_pure _)
  refine Fails.bind ?_ fun active => fails_change _
  refine (s.git.fails_ask hE _).bind fun out => ?_
  exact ((hdebug _).bind fun _ => fails_pure _).ite ((hdebug _).bind fun _ => fails_pure _)

/-- Where git says which files there are, no rules are read. -/
theorem fails_candidates (hgit : s.mode.usesGit = true) : Fails h E (s.candidates requested) := by
  have hreported (args : List String) :
      Fails h E (Git.linesOf <$> s.git.ask args >>= s.filesReported) := by
    have hask : Fails h E (Git.linesOf <$> s.git.ask args) := by
      rw [← bind_pure_comp]
      exact (s.git.fails_ask hE args).bind fun _ => fails_pure _
    refine hask.bind fun entries => (s.fails_repositoryRoot hE hselection).bind fun top => ?_
    exact (Fails.mapM (fun _ => s.fails_fileReported hE _ _) _).bind fun _ => fails_pure _
  unfold candidates
  split
  · next hmode => simp [hmode, Selection.Mode.usesGit] at hgit
  · next hmode => simp [hmode, Selection.Mode.usesGit] at hgit
  · exact hreported _
  · exact hreported _
  · exact hreported _
  · exact (s.fails_stashUnstaged hE hselection).bind fun _ => hreported _

end Git

/-- Where git is not asked, choosing files only looks around. -/
theorem idle_select (hgit : s.mode.usesGit = false) : Moves h Idle (s.select requested) := by
  have hcandidates : Moves h Idle (s.candidates requested) := by
    unfold candidates
    split
    · exact s.idle_walkFiles _
    · exact s.idle_explicitFiles _
    all_goals next hmode => simp [hmode, Selection.Mode.usesGit] at hgit
  have hrest : Moves h Idle (do
      debug ("Selecting " ++ s.mode.describe)
      let files := Path.sortedSet (← s.candidates requested)
      if files ≠ [] then return some files
      else if s.mode.usesGit then return none
      else fail (.selection (.allExcluded s.mode))) :=
    (idle_debug _).bind fun _ => hcandidates.bind fun _ => (moves_pure _).ite
      ((moves_pure _).ite (moves_fail _))
  exact ((moves_fail _).bind fun _ => hrest).ite hrest

/-- A choice that fails for the configuration has come upon a bad pattern, and git was not asked. -/
theorem idle_of_select_config {x : ConfigError}
    (hgo : (s.select requested).go h w = (.error (.config x), w')) : Idle w w' := by
  cases hgit : s.mode.usesGit with
  | false =>
    have hidle := s.idle_select (h := h) requested hgit w
    rwa [hgo] at hidle
  | true =>
    have hrest : Fails h (·.isConfig = false) (do
        debug ("Selecting " ++ s.mode.describe)
        let files := Path.sortedSet (← s.candidates requested)
        if files ≠ [] then return some files
        else if s.mode.usesGit then return none
        else fail (.selection (.allExcluded s.mode))) :=
      (yields_debug _).fails.bind fun _ =>
        (s.fails_candidates requested Failure.ofTarget_isConfig (fun _ => rfl) hgit).bind fun _ =>
          (fails_pure _).ite ((fails_pure _).ite (fails_fail rfl))
    have hselect : Fails h (·.isConfig = false) (s.select requested) :=
      Fails.ite (Fails.bind (fails_fail rfl) fun _ => hrest) hrest
    have hno := hselect w (.config x) (by rw [hgo])
    cases hno

theorem go_close_of_not_held (hw : w.holdsStash = false) :
    ∃ w', s.close.go h w = (.ok (), w') ∧ w'.tree = w.tree ∧ w'.events = w.events := by
  have hholding : holding.go h w = (.ok w.holding, w) := rfl
  rw [close, go_bind_ok hholding]
  cases hstash : w.holding.stash with
  | none => exact ⟨w, rfl, rfl, rfl⟩
  | some active =>
    cases active with
    | false => exact ⟨_, rfl, rfl, rfl⟩
    | true => simp [holdsStash, hstash] at hw

/-- The end of a selection that holds a stash is that of asking for it. -/
theorem go_close_of_release {r : Except Failure Unit} {w₂ : World σ} (hw : w.holdsStash = true)
    (hgo : (s.git.release true).go h { w with holding := { w.holding with stash := some false } } =
      (r, w₂)) : ∃ w', s.close.go h w = (r, w') ∧ w'.events = w₂.events := by
  have hstash : w.holding.stash = some true := by simpa [holdsStash] using hw
  have hholding : holding.go h w = (.ok w.holding, w) := rfl
  have hheld : (hold fun held => { held with stash := some false }).go h w =
      (.ok (), { w with holding := { w.holding with stash := some false } }) := rfl
  rw [close, go_bind_ok hholding, hstash]
  simp only [go_bind_ok hheld]
  cases r with
  | ok _ =>
    rw [go_bind_ok hgo]
    exact ⟨_, rfl, rfl⟩
  | error e =>
    rw [go_bind_error hgo]
    exact ⟨w₂, rfl, rfl⟩

theorem go_close_of_held (hw : w.holdsStash = true) :
    ∃ outcome notes r w' es, Git.Returns outcome notes r ∧ s.close.go h w = (r, w') ∧
      w'.events = w.events ++ (es ++ .asked Git.popArgs outcome :: notes) ∧ ∀ e ∈ es, e.Aside := by
  obtain ⟨outcome, notes, r, w₂, es, hreturns, hgo, -, hevents, haside⟩ :=
    s.git.go_release h { w with holding := { w.holding with stash := some false } }
  obtain ⟨w', hclose, heq⟩ := go_close_of_release s hw hgo
  exact ⟨outcome, notes, r, w', es, hreturns, hclose, heq.trans hevents, haside⟩

theorem fails_close : Fails h (·.isEarly = false) s.close := by
  refine (fails_world.bind fun _ => fails_pure _).bind fun held => ?_
  split
  · exact fails_pure _
  · exact (fails_change _).bind fun _ => (s.git.fails_release _).bind fun _ => fails_change _

end Selector

/-- If it is a start, then of git itself, which nobody answers for. -/
def GitsOwn (h : Host σ) (e : Event) : Prop :=
  ∀ s, e.start? = some s → h.git = none ∧ h.StartsGit s

theorem tolerates_gitsOwn : Tolerates h (GitsOwn h) where
  note e he s hs := by
    rw [Event.start?_of_isNote he] at hs
    cases hs
  git hgit s outcome hs := by
    rintro s' ⟨⟩
    exact ⟨hgit, hs⟩

theorem gitsOwn_asked (args : List String) (outcome : Except Failure String) :
    GitsOwn h (.asked args outcome) := by
  rintro s ⟨⟩

/-- Every stash that git told of is asked back later on, and if git could not bring it back that is
noted as an error. -/
def Returned (es : List Event) : Prop :=
  ∀ before stash after, es = before ++ stash :: after → stash.reportsStash = true →
    ∃ during outcome rest, after = during ++ .asked Git.popArgs outcome :: rest ∧
      ∀ e, outcome = .error e → ∃ message, .logged .error message ∈ rest

theorem returned_of_no_stash {es : List Event} (hes : ∀ e ∈ es, e.reportsStash = false) :
    Returned es := by
  rintro before stash after rfl hstash
  rw [hes stash (by simp)] at hstash
  cases hstash

/-- A stash is asked back after all of `es`, and nothing that comes then tells of another. -/
theorem Returned.of_asked {es notes : List Event} {outcome : Except Failure String}
    (hlogged : ∀ e, outcome = .error e → ∃ message, .logged .error message ∈ notes)
    (hnotes : ∀ e ∈ notes, e.reportsStash = false) :
    Returned (es ++ .asked Git.popArgs outcome :: notes) := by
  rintro before stash after hes hstash
  have hpop : ∀ e ∈ .asked Git.popArgs outcome :: notes, e.reportsStash = false := by
    intro e he
    rcases List.mem_cons.1 he with rfl | he
    · exact Event.reportsStash_of_isPop rfl
    · exact hnotes e he
  rcases List.append_eq_append_iff.1 hes with ⟨front, rfl, htail⟩ | ⟨during, rfl, htail⟩
  · rw [hpop stash (by rw [htail]; simp)] at hstash
    cases hstash
  · cases during with
    | nil =>
      rw [List.nil_append] at htail
      rw [hpop stash (by rw [← htail]; simp)] at hstash
      cases hstash
    | cons e during =>
      obtain ⟨rfl, rfl⟩ := List.cons_eq_cons.1 htail
      exact ⟨during, outcome, notes, rfl, hlogged⟩

theorem Returned.after {front es : List Event} (hes : Returned es)
    (hfront : ∀ e ∈ front, e.reportsStash = false) : Returned (front ++ es) := by
  rintro before stash after happend hstash
  rcases List.append_eq_append_iff.1 happend with ⟨rest, rfl, htail⟩ | ⟨rest, rfl, htail⟩
  · exact hes rest stash after htail hstash
  · cases rest with
    | nil => exact hes [] stash after htail.symm hstash
    | cons e rest =>
      obtain ⟨rfl, rfl⟩ := List.cons_eq_cons.1 htail
      rw [hfront stash (by simp)] at hstash
      cases hstash

/-- Without a question for its return, no stash can be followed by none outstanding. -/
theorem Turns.no_stash {es : List Event} (hes : Turns false es false)
    (hpops : ∀ e ∈ es, e.isPop = false) : ∀ e ∈ es, e.reportsStash = false := by
  have hcount := hes.outstanding
  have hnone : popsIn es = 0 := List.countP_eq_zero.2 fun e he => by simp [hpops e he]
  rw [hnone] at hcount
  intro e he
  simpa using List.countP_eq_zero.1 hcount e he

/-- A choice of files, however it ends, and the end of the selection without fault. -/
theorem Selector.returned_of_close {s : Selector} {requested : List Path} {w₁ w₂ : World σ}
    (hheld : w.holdsStash = false) (hselect : ((s.select requested).go h w).2 = w₁)
    (hclose : s.close.go h w₁ = (.ok (), w₂)) :
    ∃ es, w₂.events = w.events ++ es ∧ (∀ e ∈ es, GitsOwn h e) ∧ Returned es := by
  have htolerates : Tolerates h fun e => GitsOwn h e ∧ e.isPop = false :=
    ⟨fun e he => ⟨tolerates_gitsOwn.note e he,
      (Event.aside_of_isQuestion (Event.isQuestion_of_isNote he)).2⟩,
      fun hgit s outcome hs => ⟨tolerates_gitsOwn.git hgit s outcome hs, rfl⟩⟩
  have hasked (args : List String) (outcome : Except Failure String) (ha : args ≠ Git.popArgs) :
      GitsOwn h (.asked args outcome) ∧ (Event.asked args outcome).isPop = false :=
    ⟨gitsOwn_asked args outcome, beq_eq_false_iff_ne.2 ha⟩
  have hchoice := s.extends_select htolerates hasked requested w
  have hkept := s.kept_select (h := h) requested w
  rw [hselect] at hchoice hkept
  obtain ⟨es, hes, hown⟩ := hchoice
  obtain ⟨es', hes', hturns⟩ := hkept
  obtain rfl : es = es' := List.append_cancel_left (hes.symm.trans hes')
  rw [hheld] at hturns
  cases hstash : w₁.holdsStash with
  | false =>
    obtain ⟨w₃, hgo, -, hevents⟩ := s.go_close_of_not_held (h := h) hstash
    rw [hgo] at hclose
    cases hclose
    rw [hstash] at hturns
    exact ⟨es, hevents.trans hes, fun e he => (hown e he).1,
      returned_of_no_stash (hturns.no_stash fun e he => (hown e he).2)⟩
  | true =>
    obtain ⟨outcome, notes, r, w₃, aside, hreturns, hgo, hevents, -⟩ := s.go_close_of_held (h := h) hstash
    have hend := s.extends_close (P := GitsOwn h) tolerates_gitsOwn gitsOwn_asked w₁
    rw [hgo] at hclose hend
    cases hclose
    obtain ⟨after, hafter, hgits⟩ := hend
    obtain rfl := List.append_cancel_left (hafter.symm.trans hevents)
    refine ⟨es ++ (aside ++ .asked Git.popArgs outcome :: notes), ?_, ?_, ?_⟩
    · rw [hevents, hes, List.append_assoc]
    · intro e he
      rcases List.mem_append.1 he with he | he
      · exact (hown e he).1
      · exact hgits e he
    · rw [← List.append_assoc]
      cases hreturns with
      | back out => exact .of_asked (fun e he => by cases he) (by simp)
      | refused x =>
        refine .of_asked (fun e _ => ⟨_, List.mem_singleton_self _⟩) ?_
        simp [Event.reportsStash]

namespace Pass

variable {p : Pass} {l : Config.Loaded} {r : Reporter} {workers : Int} {cwd : Path}

/-- An early failure while a selection is open is one of choosing the files. -/
theorem of_overSelection_early {fs : List Filter} {s : Selector}
    (hover : (p.overSelection r workers fs s).go h w = (.error e, w')) (he : e.isEarly = true) :
    (s.select p.paths).go h w = (.error e, w') := by
  have hafter {act : Run σ Exit} {w₁ : World σ} (hact : Fails h (·.isEarly = false) act)
      (hgo : act.go h w₁ = (.error e, w')) : False := by
    rw [hact w₁ e (by rw [hgo])] at he
    cases he
  rcases go_bind_cases (s.select p.paths) _ h w with
    ⟨e', w₁, hselect, hgo⟩ | ⟨chosen, w₁, -, hgo⟩
  · rw [overSelection, hgo] at hover
    cases hover
    exact hselect
  · rw [overSelection, hgo] at hover
    refine (hafter ?_ hover).elim
    cases chosen with
    | none => exact (r.yields_say none _).fails.bind fun _ => fails_pure _
    | some files => exact (fails_runFilters r workers fs).bind fun _ => fails_pure _

/-- An early failure has come about before a selector was there, or in its choice of files, and the
selection was closed without fault. -/
theorem of_run_early (hrun : (p.run l r workers cwd).go h w = (.error e, w')) (he : e.isEarly = true) :
    (Idle w w' ∧ (p.opening l r cwd).go h w = (.error e, w')) ∨
      ∃ (s : Selector) (w₁ w₂ : World σ), Idle w w₁ ∧
        (s.select p.paths).go h { w₁ with holding := {} } = (.error e, w₂) ∧
        s.close.go h w₂ = (.ok (), w') ∧ (p.opening l r cwd).go h w = (.error e, w₂) := by
  rcases p.go_run_cases l r workers cwd h w with
    ⟨e', w₁, hw₁, hfail, hopening⟩ | ⟨fs, s, w₁, hw₁, -, -, hgo, hopening⟩
  · rw [hfail] at hrun
    cases hrun
    exact .inl ⟨hw₁, hopening⟩
  · rw [hgo, go_ensuring] at hrun
    rcases hover : (p.overSelection r workers fs s).go h { w₁ with holding := {} } with ⟨outcome, w₂⟩
    rw [hover] at hrun
    have hcloses := s.fails_close (h := h) w₂
    rcases hclose : s.close.go h w₂ with ⟨e' | _, w₃⟩
    · rw [hclose] at hrun hcloses
      cases hrun
      rw [hcloses e rfl] at he
      cases he
    · rw [hclose] at hrun
      cases hrun
      have hselect := of_overSelection_early hover he
      exact .inr ⟨s, w₁, w₂, hw₁, hselect, hclose, by rw [hopening, go_map, hselect]; rfl⟩

theorem unchanged_of_run_config {x : ConfigError}
    (hrun : (p.run l r workers cwd).go h w = (.error (.config x), w')) :
    w'.tree = w.tree ∧ Extends (·.isNote) w w' := by
  rcases of_run_early hrun rfl with ⟨hw, -⟩ | ⟨s, w₁, w₂, hw₁, hselect, hclose, -⟩
  · exact ⟨hw.tree, hw.notes⟩
  · have hw₂ := s.idle_of_select_config p.paths hselect
    have hheld : w₂.holdsStash = false := by
      rw [holdsStash, hw₂.holding]
      rfl
    obtain ⟨w₃, hgo, htree, hevents⟩ := s.go_close_of_not_held (h := h) hheld
    rw [hgo] at hclose
    cases hclose
    obtain ⟨notes, he, hnotes⟩ := hw₁.notes.trans hw₂.notes
    exact ⟨htree.trans (hw₂.tree.trans hw₁.tree), notes, hevents.trans he, hnotes⟩

theorem returned_of_run_early (hrun : (p.run l r workers cwd).go h w = (.error e, w'))
    (he : e.isEarly = true) : p.turns l r workers cwd h w = [] ∧
      ∃ es, w'.events = w.events ++ es ∧ (∀ e ∈ es, GitsOwn h e) ∧ Returned es := by
  have hturns {w₂ : World σ} (hopening : (p.opening l r cwd).go h w = (.error e, w₂)) :
      p.turns l r workers cwd h w = [] := by rw [turns, hopening]
  have hquiet {notes : List Event} (hnotes : ∀ e ∈ notes, e.isNote = true) :
      ∀ e ∈ notes, e.reportsStash = false := fun e hm =>
    (Event.aside_of_isQuestion (Event.isQuestion_of_isNote (hnotes e hm))).reportsStash
  rcases of_run_early hrun he with ⟨hw, hopening⟩ | ⟨s, w₁, w₂, hw₁, hselect, hclose, hopening⟩
  · obtain ⟨notes, hnew, hnotes⟩ := hw.notes
    exact ⟨hturns hopening, notes, hnew, fun e hm => tolerates_gitsOwn.note e (hnotes e hm),
      returned_of_no_stash (hquiet hnotes)⟩
  · obtain ⟨notes, hnew, hnotes⟩ := hw₁.notes
    obtain ⟨es, hes, hgits, hreturned⟩ :=
      Selector.returned_of_close rfl (congrArg Prod.snd hselect) hclose
    refine ⟨hturns hopening, notes ++ es, ?_, ?_, hreturned.after (hquiet hnotes)⟩
    · have hbegun : ({ w₁ with holding := {} } : World σ).events = w.events ++ notes := hnew
      rw [hes, hbegun, List.append_assoc]
    · intro e hm
      rcases List.mem_append.1 hm with hm | hm
      · exact tolerates_gitsOwn.note e (hnotes e hm)
      · exact hgits e hm

/-- Failing for the configuration leaves nothing but words. Failing for the choice of files or a
question to git leaves no filter with a turn, and no stash that was not asked back. -/
theorem early_failure (hrun : (p.run l r workers cwd).go h w = (.error e, w')) :
    (∀ x, e = .config x → w'.tree = w.tree ∧ Extends (·.isNote) w w') ∧
      ((∃ x, e = .selection x) ∨ (∃ x, e = .exec x) → p.turns l r workers cwd h w = [] ∧
        ∃ es, w'.events = w.events ++ es ∧ (∀ e ∈ es, GitsOwn h e) ∧ Returned es) := by
  constructor
  · rintro x rfl
    exact unchanged_of_run_config hrun
  · rintro (⟨x, rfl⟩ | ⟨x, rfl⟩)
    · exact returned_of_run_early hrun rfl
    · exact returned_of_run_early hrun rfl

end Pass

namespace Sample

/-- Git puts changes aside, cannot say what is staged, and cannot bring the changes back. -/
def broken : Script := { conflict with
  git := { args := ["diff", "--cached", "--name-only", "--diff-filter=ACM"], outcome := .error "bad object" }
    :: conflict.git }

/-- There is no command of this kind. -/
def unlabelled : Pass := { pass with label := some "none" }

theorem unlabelled_fails : (match (unlabelled.run loaded {} 1 root).go Sample.host (world broken) with
    | (.error (.config _), _) => true
    | _ => false) = true := by decide +kernel

theorem broken_fails : (match (pass.run loaded {} 1 root).go Sample.host (world broken) with
    | (.error (.exec _), w') => w'.events.any (·.reportsStash)
    | _ => false) = true := by decide +kernel

end Sample

open Sample in
theorem early_failure_staged :
    (∃ x w', (unlabelled.run loaded {} 1 root).go Sample.host (world broken) =
        (.error (.config x), w') ∧ w'.tree = (world broken).tree ∧
        Extends (·.isNote) (world broken) w') ∧
      ∃ x w', (pass.run loaded {} 1 root).go Sample.host (world broken) = (.error (.exec x), w') ∧
        w'.events.any (·.reportsStash) = true ∧ pass.turns loaded {} 1 root Sample.host (world broken) = [] ∧
        ∃ es, w'.events = (world broken).events ++ es ∧ (∀ e ∈ es, GitsOwn Sample.host e) ∧
          Returned es := by
  constructor
  · have hruns := unlabelled_fails
    split at hruns
    · next x w' hrun => exact ⟨x, w', hrun, (Pass.early_failure hrun).1 x rfl⟩
    · cases hruns
  · have hruns := broken_fails
    split at hruns
    · next x w' hrun => exact ⟨x, w', hrun, hruns, (Pass.early_failure hrun).2 (.inr ⟨x, rfl⟩)⟩
    · cases hruns

end LintRunner
