import LintRunner.Pass
import LintRunner.Proofs.Filter.Invocation
import LintRunner.Proofs.Selection.Chosen
import LintRunner.Script

/-! A pass, target by target. An `Attempt` is a target together with the world it is taken up in, a
`Round` one filter's turn. The attempts of a round are all there whatever becomes of them, each taken
up where the one before it ended, and the rounds follow one another in the same way. -/

namespace LintRunner

open World Run Pass

variable {σ : Type} {h : Host σ}

structure Attempt (σ : Type) where
  filter : Filter
  scope : Filter.Scope
  target : Target
  begun : World σ

namespace Attempt

variable (h) (a : Action) (x : Attempt σ)

/-- How the target ended. -/
def ending : Except Failure (Option Result) :=
  ((attemptTarget a x.filter x.scope x.target).go h x.begun).1

/-- The world it left behind. -/
def left : World σ := ((runTarget a x.filter x.scope x.target).go h x.begun).2

/-- The commands started for it. -/
def starts : List Spawn := x.begun.startsSince (x.left h a)

/-- The files or directories that the path arguments for it stand for. -/
def items : List Path := x.filter.itemsFor x.target.path x.target.files x.scope

/-- What goes down as its result, if the pass can go on. -/
def kept : Except Failure (Option Result) :=
  match x.ending h a with
  | .ok r => .ok r
  | .error e =>
    match recorded? e with
    | none => .error e
    | some reason => .ok (some (.failed reason))

/-- A target keeps what it can to itself, and says so. -/
theorem go_runTarget :
    (runTarget a x.filter x.scope x.target).go h x.begun = (x.kept h a, x.left h a) ∧
      Idle ((attemptTarget a x.filter x.scope x.target).go h x.begun).2 (x.left h a) := by
  unfold left kept ending
  rw [runTarget, go_bind_ok (go_attempt _ h x.begun)]
  rcases (attemptTarget a x.filter x.scope x.target).go h x.begun with ⟨e | r, w⟩
  · cases hrec : recorded? e with
    | none => simp [hrec, Idle.refl w]
    | some reason =>
      obtain ⟨_, w', hdebug, -, hw⟩ := yields_debug (h := h)
        (x.filter.name ++ " failed for " ++ x.target.path.text ++ ": " ++ reason) w
      simp only [hrec, go_bind_ok hdebug]
      exact ⟨rfl, hw⟩
  · exact ⟨rfl, Idle.refl w⟩

theorem course : x.filter.Course h a x.target.path x.target.files x.scope x.begun
    (x.ending h a, x.left h a) := by
  refine Filter.Course.then_idle ?_ (x.go_runTarget h a).2
  cases a with
  | lint => exact (Filter.course_lint _ _ _ h x.begun).map _
  | tidy => exact (Filter.course_tidy _ _ _ h x.begun).map _

/-- A target is skipped, blocked, or its command is started once. -/
theorem starts_cases :
    (x.ending h a = .ok none ∧ x.filter.takes x.target.path x.target.files x.scope = false ∧
        x.starts h a = []) ∨
      (∃ e, x.ending h a = .error e ∧ x.filter.Blocked h a x.target.path x.target.files x.scope x.begun ∧
        x.starts h a = []) ∨
      ∃ r s, x.filter.takes x.target.path x.target.files x.scope = true ∧
        x.filter.requestFor a x.target.path x.target.files x.scope = .ok r ∧
        r.Starts h x.begun s ∧ x.ending h a ≠ .ok none ∧ x.starts h a = [s] := by
  have hc := x.course h a
  generalize hend : x.ending h a = outcome at hc
  generalize hleft : x.left h a = w' at hc
  have hnone (hw : Idle x.begun w') : x.starts h a = [] :=
    startsSince_of_starts_eq (by rw [hleft, hw.starts, List.append_nil])
  cases hc with
  | skipped ht hw => exact .inl ⟨rfl, ht, hnone hw⟩
  | @blocked e _ hb hw => exact .inr (.inl ⟨e, rfl, hb, hnone hw⟩)
  | @started _ _ r s ht hr hs hw ho =>
    exact .inr (.inr ⟨r, s, ht, hr, hs, ho, startsSince_of_starts_eq (by rw [hleft, hw])⟩)

theorem left_starts : (x.left h a).starts = x.begun.starts ++ x.starts h a := by
  have hc := x.course h a
  generalize hleft : x.left h a = w' at hc
  have hsome {ss : List Spawn} (hw : w'.starts = x.begun.starts ++ ss) :
      w'.starts = x.begun.starts ++ x.starts h a := by
    rw [starts, hleft, startsSince_of_starts_eq hw, hw]
  generalize x.ending h a = outcome at hc
  cases hc with
  | skipped ht hw => exact hsome (by rw [hw.starts, List.append_nil])
  | blocked hb hw => exact hsome (by rw [hw.starts, List.append_nil])
  | started ht hr hs hw ho => exact hsome hw

end Attempt

/-- The attempts of a filter at its targets. -/
def attempts (h : Host σ) (a : Action) (f : Filter) (scope : Filter.Scope) :
    World σ → List Target → List (Attempt σ)
  | _, [] => []
  | w, t :: rest =>
    let x : Attempt σ := ⟨f, scope, t, w⟩
    x :: attempts h a f scope (x.left h a) rest

/-- The world that the last of them leaves. -/
def leftBy (h : Host σ) (a : Action) (f : Filter) (scope : Filter.Scope) (w : World σ)
    (targets : List Target) : World σ :=
  targets.foldl (fun w t => (⟨f, scope, t, w⟩ : Attempt σ).left h a) w

section Attempts

variable (h) (a : Action) (f : Filter) (scope : Filter.Scope)

theorem targets_attempts (w : World σ) (targets : List Target) :
    (attempts h a f scope w targets).map (·.target) = targets := by
  induction targets generalizing w with
  | nil => rfl
  | cons t rest ih => simp [attempts, ih]

theorem of_mem_attempts {w : World σ} {targets : List Target} {x : Attempt σ}
    (hx : x ∈ attempts h a f scope w targets) : x.filter = f ∧ x.scope = scope ∧ x.target ∈ targets := by
  induction targets generalizing w with
  | nil => cases hx
  | cons t rest ih =>
    rcases List.mem_cons.1 hx with rfl | hx
    · exact ⟨rfl, rfl, by simp⟩
    · obtain ⟨hf, hs, ht⟩ := ih hx
      exact ⟨hf, hs, by simp [ht]⟩

theorem exists_attempt {w : World σ} {targets : List Target} {t : Target} (ht : t ∈ targets) :
    ∃ x ∈ attempts h a f scope w targets, x.target = t := by
  have hmem : t ∈ (attempts h a f scope w targets).map (·.target) := by rwa [targets_attempts]
  exact List.mem_map.1 hmem

theorem starts_attempts (w : World σ) (targets : List Target) :
    (leftBy h a f scope w targets).starts =
      w.starts ++ (attempts h a f scope w targets).flatMap (·.starts h a) := by
  induction targets generalizing w with
  | nil => simp [leftBy, attempts]
  | cons t rest ih =>
    have hx := (⟨f, scope, t, w⟩ : Attempt σ).left_starts h a
    rw [leftBy, List.foldl_cons, ← leftBy, ih, hx, attempts, List.flatMap_cons, List.append_assoc]

/-- Every target is attempted in turn, whatever became of those before it. -/
theorem go_attempts (w : World σ) (targets : List Target) :
    (targets.mapM fun t => Run.attempt do return (t, ← runTarget a f scope t)).go h w =
      (.ok ((attempts h a f scope w targets).map fun x => (x.kept h a).map (x.target, ·)),
        leftBy h a f scope w targets) := by
  induction targets generalizing w with
  | nil => rfl
  | cons t rest ih =>
    let x : Attempt σ := ⟨f, scope, t, w⟩
    have hx : (do return (t, ← runTarget a f scope t) : Run σ (Target × Option Result)).go h w =
        ((x.kept h a).map (t, ·), x.left h a) := by
      rw [go_bind, (x.go_runTarget h a).1]
      cases x.kept h a <;> rfl
    have hfirst := go_attempt (do return (t, ← runTarget a f scope t)) h w
    rw [hx] at hfirst
    rw [List.mapM_cons, go_bind_ok hfirst, go_bind_ok (ih (x.left h a))]
    rfl

end Attempts

/-- The turn of a filter, and the world that its first target is taken up in. -/
structure Round (σ : Type) where
  filter : Filter
  files : List Path
  begun : World σ

namespace Round

/-- The turn of a filter that is announced in `w`. -/
def opened (h : Host σ) (files : List Path) (w : World σ) (f : Filter) : Round σ where
  filter := f
  files := files
  begun := ((do let _ ← f.resolveScope files; Run.now : Run σ Rat).go h w).2

variable (h) (a : Action) (x : Round σ)

def scope : Filter.Scope := x.filter.scopeOf x.files

def targets : List Target := Target.pathMap x.scope x.files (Group.make x.files)

def attempts : List (Attempt σ) := LintRunner.attempts h a x.filter x.scope x.begun x.targets

def starts : List Spawn := (x.attempts h a).flatMap (·.starts h a)

def left : World σ := leftBy h a x.filter x.scope x.begun x.targets

/-- The results in order, or the first failure that no target keeps to itself. -/
def results : Except Failure (List (Target × Result)) :=
  (((x.attempts h a).map fun t : Attempt σ => (t.kept h a).map (t.target, ·)).mapM id).map
    (·.filterMap fun (t, r) => r.map (t, ·))

theorem idle_opened (files : List Path) (w : World σ) (f : Filter) :
    Idle w (opened h files w f).begun :=
  ((f.yields_resolveScope files).bind fun _ _ => yields_now).idle w

theorem left_starts : (x.left h a).starts = x.begun.starts ++ x.starts h a :=
  starts_attempts h a x.filter x.scope x.begun x.targets

theorem go_runTargets :
    (runTargets a x.filter x.scope x.targets).go h x.begun = (x.results h a, x.left h a) := by
  have hkept (ends : List (Except Failure (Target × Option Result))) (w : World σ) :
      (ends.mapM (Run.ofExcept id)).go h w = (ends.mapM id, w) := by
    induction ends generalizing w with
    | nil => rfl
    | cons e rest ih =>
      rw [List.mapM_cons, List.mapM_cons]
      cases e with
      | error e => rfl
      | ok r =>
        rw [go_bind_ok (go_ofExcept_ok id r h w), go_bind, ih]
        cases rest.mapM id <;> rfl
  have hends := go_attempts h a x.filter x.scope x.begun x.targets
  rw [runTargets, go_bind_ok hends, go_bind, hkept]
  unfold results attempts left
  cases ((LintRunner.attempts h a x.filter x.scope x.begun x.targets).map fun t : Attempt σ =>
    (t.kept h a).map (t.target, ·)).mapM id <;> rfl

end Round

theorem Pass.yields_report (r : Reporter) (f : Filter) (scope : Filter.Scope) (t : Target)
    (result : Result) : Yields h (fun _ => True) (report r f scope t result) := by
  unfold report
  split
  · exact r.yields_insist _ _
  · exact .ite (fun _ => r.yields_say _ _) fun _ => r.yields_lintFailed _ _ _ _ _
  · exact r.yields_say _ _
  · exact r.yields_say _ _
  · exact r.yields_say _ _

/-- What is left to do once the results of a filter are there. -/
def Pass.conclude (a : Action) (r : Reporter) (f : Filter) (scope : Filter.Scope) (started : Rat)
    (results : List (Target × Result)) : Run σ (List FailedTarget) := do
  if results ≠ [] then
    Run.info (a.title ++ " with " ++ f.name ++ " on " ++ countText results.length
      ++ ", elapsed time = " ++ Duration.describe ((← Run.now) - started))
  results.forM fun (t, result) => report r f scope t result
  return results.filterMap fun (t, result) => failure? f scope t result

/-- What is said once all targets of a filter have been attempted cannot fail. -/
theorem Pass.yields_conclude (a : Action) (r : Reporter) (f : Filter) (scope : Filter.Scope)
    (started : Rat) (results : List (Target × Result)) :
    Yields h (· = results.filterMap fun (t, result) => failure? f scope t result)
      (conclude a r f scope started results) := by
  have hreports := Yields.forM (h := h) (fun e => yields_report r f scope e.1 e.2) results
  exact .ite (fun _ => yields_now.bind fun _ _ => (yields_info _).bind fun _ _ =>
    hreports.bind fun _ _ => yields_pure rfl) fun _ => hreports.bind fun _ _ => yields_pure rfl

/-- A filter's turn comes to what its targets came to. -/
theorem Pass.go_runFilter (a : Action) (r : Reporter) (workers : Int) (f : Filter) (files : List Path)
    (h : Host σ) (w : World σ) :
    (∃ e, workers ≤ 0 ∧ (runFilter a r workers f files (Group.make files)).go h w =
        (.error e, (Round.opened h files w f).begun)) ∨
      ∃ w', Idle ((Round.opened h files w f).left h a) w' ∧
        (runFilter a r workers f files (Group.make files)).go h w =
          (((Round.opened h files w f).results h a).map
            (·.filterMap fun (t, result) => failure? f (f.scopeOf files) t result), w') := by
  obtain ⟨_, w₁, hscope, rfl, -⟩ := f.yields_resolveScope files (h := h) w
  obtain ⟨started, w₂, hnow, -, -⟩ := yields_now (h := h) w₁
  have hopened : (Round.opened h files w f).begun = w₂ := by
    rw [Round.opened, go_bind_ok hscope, hnow]
  rw [runFilter, go_bind_ok hscope, go_bind_ok hnow]
  split
  · next hworkers => exact .inl ⟨_, hworkers, by rw [hopened]; rfl⟩
  · have hturn := (Round.opened h files w f).go_runTargets h a
    rw [hopened] at hturn
    right
    cases hres : (Round.opened h files w f).results h a with
    | error e =>
      rw [hres] at hturn
      exact ⟨_, Idle.refl _, go_bind_error hturn _⟩
    | ok results =>
      rw [hres] at hturn
      obtain ⟨_, w', hreports, rfl, hw'⟩ := Pass.yields_conclude (h := h) a r f (f.scopeOf files) started
        results ((Round.opened h files w f).left h a)
      exact ⟨w', hw', (go_bind_ok hturn _).trans hreports⟩

/-- The settings of a filter are noted, or cannot be written. -/
theorem Pass.go_announce (f : Filter) (h : Host σ) (w : World σ) :
    (f.describe? = none ∧ (announce f).go h w = (.error (.crash .numberUnwritten), w)) ∨
      ∃ w', f.describe? ≠ none ∧ Idle w w' ∧ (announce f).go h w = (.ok (), w') := by
  unfold announce
  cases hdescribed : f.describe? with
  | none => exact .inl ⟨rfl, rfl⟩
  | some settings =>
    obtain ⟨_, w', hdebug, -, hw'⟩ := yields_debug (h := h)
      ("Command config for " ++ f.name ++ ": " ++ settings) w
    exact .inr ⟨w', nofun, hw', hdebug⟩

theorem Pass.idle_announce (f : Filter) : Moves h Idle (announce f) := by
  intro w
  rcases go_announce f h w with ⟨-, hgo⟩ | ⟨w', -, hw', hgo⟩
  · rw [hgo]
    exact Idle.refl w
  · rw [hgo]
    exact hw'

/-- The turns of the filters, as far as the pass gets. -/
def rounds (h : Host σ) (a : Action) (r : Reporter) (workers : Int) (files : List Path) :
    World σ → List Filter → List (Round σ)
  | _, [] => []
  | w, f :: rest =>
    let w₁ := ((announce f).go h w).2
    let w₂ := ((runFilter a r workers f files (Group.make files)).go h w₁).2
    Round.opened h files w₁ f :: rounds h a r workers files w₂ rest

section Rounds

variable (h) (a : Action) (r : Reporter) (workers : Int) (files : List Path)

theorem filters_rounds (w : World σ) (fs : List Filter) :
    (rounds h a r workers files w fs).map (·.filter) = fs := by
  induction fs generalizing w with
  | nil => rfl
  | cons f rest ih => simp [rounds, ih, Round.opened]

theorem of_mem_rounds {w : World σ} {fs : List Filter} {x : Round σ}
    (hx : x ∈ rounds h a r workers files w fs) : x.filter ∈ fs ∧ x.files = files := by
  induction fs generalizing w with
  | nil => cases hx
  | cons f rest ih =>
    rcases List.mem_cons.1 hx with rfl | hx
    · exact ⟨by simp [Round.opened], rfl⟩
    · obtain ⟨hf, hfiles⟩ := ih hx
      exact ⟨by simp [hf], hfiles⟩

/-- The commands started by all filters together are those of the rounds that came about, in order. -/
theorem starts_runFilters (w : World σ) (fs : List Filter) :
    ∃ k, ((runFilters a r workers files fs).go h w).2.starts =
      w.starts ++ ((rounds h a r workers files w fs).take k).flatMap (·.starts h a) := by
  induction fs generalizing w with
  | nil => exact ⟨0, by simp [runFilters]⟩
  | cons f rest ih =>
    rcases go_announce f h w with ⟨-, hnote⟩ | ⟨w₁, -, hw₁, hnote⟩
    · exact ⟨0, by rw [runFilters, go_bind_error hnote]; simp⟩
    have hopened := (Round.idle_opened (h := h) files w₁ f).starts
    rw [runFilters, go_bind_ok hnote, ← hw₁.starts, ← hopened]
    simp only [rounds, hnote]
    rcases go_runFilter a r workers f files h w₁ with ⟨e, -, hfail⟩ | ⟨w₂, hw₂, hturn⟩
    · exact ⟨0, by rw [go_bind_error hfail]; simp⟩
    · have hstarts : w₂.starts = (Round.opened h files w₁ f).begun.starts ++
          (Round.opened h files w₁ f).starts h a := by
        rw [hw₂.starts, Round.left_starts]
      cases hres : (Round.opened h files w₁ f).results h a with
      | error e =>
        rw [hres] at hturn
        exact ⟨1, by rw [go_bind_error hturn, hstarts]; simp⟩
      | ok results =>
        rw [hres] at hturn
        obtain ⟨k, hk⟩ := ih w₂
        refine ⟨k + 1, ?_⟩
        rw [go_bind_ok hturn, hturn, List.take_succ_cons, List.flatMap_cons, ← List.append_assoc,
          ← hstarts, ← hk, go_bind]
        rcases (runFilters a r workers files rest).go h w₂ with ⟨_ | _, _⟩ <;> rfl

end Rounds

namespace Pass

/-- What comes before the filters have their turns. -/
def opening (p : Pass) (l : Config.Loaded) (r : Reporter) (cwd : Path) :
    Run σ (List Filter × Selector × Option (List Path)) := do
  r.starting p.action.title p.mode.describe
  let fs ← Run.ofExcept id (p.filters l)
  let s ← Selector.start p.mode l.root (some cwd) l.project.excludes none
  return (fs, s, ← s.select p.paths)

/-- A pass fails before it has begun, having only looked around; or it is prepared, and what remains
is the choice of files with all that follows, and the end of the selection. -/
theorem go_run_cases (p : Pass) (l : Config.Loaded) (r : Reporter) (workers : Int) (cwd : Path)
    (h : Host σ) (w : World σ) :
    (∃ e w₁, Idle w w₁ ∧ (p.run l r workers cwd).go h w = (.error e, w₁) ∧
        (p.opening l r cwd).go h w = (.error e, w₁)) ∨
      ∃ fs s w₁, Idle w w₁ ∧ p.filters l = .ok fs ∧
        Matcher.compile s.root (l.project.excludes ++ vcsDirectories) = .ok s.excluder ∧
        (p.run l r workers cwd).go h w = (Run.ensuring (p.overSelection r workers fs s) s.close).go h
          { w₁ with holding := {} } ∧
        (p.opening l r cwd).go h w = ((fs, s, ·) <$> s.select p.paths).go h
          { w₁ with holding := {} } := by
  obtain ⟨_, w₁, hstarting, -, hw₁⟩ := r.yields_say (h := h) none
    (r.glyphs.ring ++ " " ++ p.action.title ++ " " ++ p.mode.describe) w
  have hopens : (r.starting p.action.title p.mode.describe).go h w = (.ok (), w₁) := hstarting
  rw [run, opening, go_bind_ok hopens, go_bind_ok hopens]
  cases hfs : p.filters l with
  | error e => exact .inl ⟨e, w₁, hw₁, rfl, rfl⟩
  | ok fs =>
    rw [go_bind_ok (go_ofExcept_ok id fs h w₁), go_bind_ok (go_ofExcept_ok id fs h w₁)]
    rcases Selector.start_cases p.mode l.root cwd l.project.excludes h w₁ with
      ⟨e, he⟩ | ⟨s, hs, -, hcompile⟩
    · exact .inl ⟨e, w₁, hw₁, go_bind_error he _, go_bind_error he _⟩
    · rw [go_bind_ok hs, go_bind_ok hs]
      exact .inr ⟨fs, s, w₁, hw₁, rfl, hcompile, rfl, rfl⟩

theorem opening_ok {p : Pass} {l : Config.Loaded} {r : Reporter} {cwd : Path} {fs : List Filter}
    {s : Selector} {chosen : Option (List Path)}
    (hopening : (p.opening l r cwd).go h w = (.ok (fs, s, chosen), w')) :
    p.filters l = .ok fs ∧ Matcher.compile s.root (l.project.excludes ++ vcsDirectories) = .ok s.excluder ∧
      ∀ files, chosen = some files → s.Chosen files := by
  rcases p.go_run_cases l r 1 cwd h w with
    ⟨e, w₁, -, -, hfail⟩ | ⟨fs', s', w₁, -, hfs, hcompile, -, hopens⟩
  · rw [hfail] at hopening
    cases hopening
  · rw [hopens, go_map] at hopening
    cases hchosen : ((s'.select p.paths).go h { w₁ with holding := {} }).1 with
    | error e =>
      rw [hchosen] at hopening
      cases hopening
    | ok chosen' =>
      rw [hchosen] at hopening
      cases hopening
      exact ⟨hfs, hcompile, Selector.gives_select p.paths _ _ hchosen⟩

/-- The turns of a pass from `w`; none if it does not get as far as having files. -/
def turns (p : Pass) (l : Config.Loaded) (r : Reporter) (workers : Int) (cwd : Path) (h : Host σ)
    (w : World σ) : List (Round σ) :=
  match (p.opening l r cwd).go h w with
  | (.ok (fs, _, some files), w₁) => rounds h p.action r workers files w₁ fs
  | _ => []

/-- Choosing files starts nothing but git, and then the filters have their turns. -/
theorem starts_overSelection (p : Pass) (r : Reporter) (workers : Int) (fs : List Filter)
    (s : Selector) (h : Host σ) (w : World σ) :
    ∃ before, (∀ s ∈ before, h.StartsGit s) ∧
      (((p.overSelection r workers fs s).go h w).2.starts = w.starts ++ before ∨
        ∃ files w₁ k, (s.select p.paths).go h w = (.ok (some files), w₁) ∧
          ((p.overSelection r workers fs s).go h w).2.starts = w.starts ++ before ++
            ((rounds h p.action r workers files w₁ fs).take k).flatMap (·.starts h p.action)) := by
  obtain ⟨before, hbefore, hgit⟩ := starts_of_gitOnly (s.extends_select tolerates_gitOnly
    (fun args outcome _ => gitOnly_asked (h := h) args outcome) p.paths w)
  refine ⟨before, hgit, ?_⟩
  rcases go_bind_cases (s.select p.paths) _ h w with ⟨e, w₁, hx, hgo⟩ | ⟨chosen, w₁, hx, hgo⟩
  · rw [hx] at hbefore
    exact .inl (by rw [overSelection, hgo, hbefore])
  · rw [hx] at hbefore
    rw [overSelection, hgo]
    cases chosen with
    | none =>
      have hsay := (r.yields_say (h := h) none (r.glyphs.empty ++ " " ++ noFilesMessage)).idle
      have hends := (hsay.bind fun _ => moves_pure (α := Exit) ⟨.ok, some noFilesMessage, none⟩) w₁
      exact .inl (hends.starts.trans hbefore)
    | some files =>
      obtain ⟨k, hk⟩ := starts_runFilters h p.action r workers files w₁ fs
      refine .inr ⟨files, w₁, k, hx, ?_⟩
      rw [← hbefore, ← hk, go_bind]
      rcases (runFilters p.action r workers files fs).go h w₁ with ⟨_ | _, _⟩ <;> rfl

/-- Besides git, a pass starts what its turns start, in their order, as far as it gets. -/
theorem starts_run (p : Pass) (l : Config.Loaded) (r : Reporter) (workers : Int) (cwd : Path)
    (h : Host σ) (w : World σ) :
    ∃ before k after, ((p.run l r workers cwd).go h w).2.starts = w.starts ++ before ++
        ((p.turns l r workers cwd h w).take k).flatMap (·.starts h p.action) ++ after ∧
      ∀ s ∈ before ++ after, h.StartsGit s := by
  have hnothing {w' : World σ} (hw' : w'.starts = w.starts) : ∃ before k after, w'.starts =
      w.starts ++ before ++ ((p.turns l r workers cwd h w).take k).flatMap (·.starts h p.action)
        ++ after ∧ ∀ s ∈ before ++ after, h.StartsGit s := ⟨[], 0, [], by simp [hw'], by simp⟩
  rcases p.go_run_cases l r workers cwd h w with
    ⟨e, w₁, hw₁, hfail, -⟩ | ⟨fs, s, w₁, hw₁, -, -, hgo, hopens⟩
  · rw [hfail]
    exact hnothing hw₁.starts
  · obtain ⟨after, hafter, hgitAfter⟩ := s.starts_close h
      ((p.overSelection r workers fs s).go h { w₁ with holding := {} }).2
    obtain ⟨before, hgitBefore, hover⟩ := starts_overSelection p r workers fs s h
      { w₁ with holding := {} }
    have hgit : ∀ s ∈ before ++ after, h.StartsGit s := by
      intro s hm
      rcases List.mem_append.1 hm with hm | hm
      · exact hgitBefore s hm
      · exact hgitAfter s hm
    have hstarts : ({ w₁ with holding := {} } : World σ).starts = w.starts := hw₁.starts
    rw [hgo, go_ensuring, hafter]
    rw [hstarts] at hover
    rcases hover with hover | ⟨files, w₂, k, hselect, hover⟩
    · exact ⟨before, 0, after, by simp [hover], hgit⟩
    · rw [go_map, hselect] at hopens
      have hturns : p.turns l r workers cwd h w = rounds h p.action r workers files w₂ fs := by
        rw [turns, hopens]
        rfl
      exact ⟨before, k, after, by rw [hover, hturns], hgit⟩

end Pass

namespace Sample

def root : Path := ⟨.root, ["p"]⟩

def topFile : Path := ⟨.relative, ["a.py"]⟩

def subFile : Path := ⟨.relative, ["sub", "b.py"]⟩

def tree : FileTree := ⟨[(["p"], .directory), (["p", "a.py"], .file .empty false),
  (["p", "sub"], .directory), (["p", "sub", "b.py"], .file .empty false),
  (["bin"], .directory), (["bin", "tool"], .file .empty true)]⟩

def host : Host Script := Script.host ["p"] [("PATH", "/bin")] false true

def world (script : Script) : World Script := ⟨tree, script, [], {}, .warning⟩

/-- A command for all Python files but those that are left out. -/
def command (kind : Filter.Kind) (program : String) (excludes : List String) : Config.Command where
  kind := kind
  includes := ["*.py"]
  excludes := excludes
  invoke := none
  workingDir := none
  pathArgs := none
  runMode := none
  chdir := none
  cmd := [program]
  env := []
  lintFlags := []
  tidyFlags := []
  pathFlag := ""
  okExitCodes := [0]
  lintFailureExitCodes := [1]
  expectStderr := false
  ignoreStderr := []
  labels := []

/-- Two linters, of which one is not installed. -/
def loaded : Config.Loaded where
  root := root
  file := root.child "gemlint.toml"
  project := ⟨[], [("check", command .lint "tool" []), ("gone", command .lint "missing" [])]⟩

def pass : Pass := { action := .lint, mode := .stagedWithStash }

/-- Both files are staged, there is something to put aside, and the linter finds fault with one. -/
def script : Script where
  processes := [{ exe := some "tool", arg := some "sub/b.py", outcome := .ok ⟨.exited 1, "", ""⟩ }]
  git := [
    { args := Git.stashArgs, outcome := .ok "Saved working directory" },
    { args := ["rev-parse", "--show-toplevel"], outcome := .ok "/p" },
    { args := ["diff", "--cached", "--name-only", "--diff-filter=ACM"],
      outcome := .ok "a.py\nsub/b.py" }]

end Sample

end LintRunner
