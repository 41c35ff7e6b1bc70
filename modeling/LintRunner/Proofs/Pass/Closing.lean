import LintRunner.Proofs.Pass.Early
import LintRunner.Proofs.Pass.Linted

/-! The end of a pass that holds a stash, where the git executable brings it back. However the command
ends once it is started, and also if there is none, an error is logged at most and the pass ends as it
would have ended. What keeps git from being started, though it is there, takes the place of that end. -/

namespace LintRunner

open World Run Exec

variable {σ : Type} {h : Host σ} {w w' : World σ} {args : List String}

def Event.isError : Event → Bool
  | .logged .error _ => true
  | _ => false

namespace World

/-- Nothing that has happened since is an error that was logged. -/
abbrev Hushed : World σ → World σ → Prop := Extends fun e => e.isError = false

/-- The errors logged since. -/
def Voices (errors : List Event) (w w' : World σ) : Prop :=
  ∃ es, w'.events = w.events ++ es ∧ es.filter Event.isError = errors

theorem Hushed.voices {es : List Event} (hw : Hushed w w') (hes : ∀ e ∈ es, e.isError = true) :
    Voices es w (es.foldl World.record w') := by
  obtain ⟨before, hbefore, hquiet⟩ := hw
  refine ⟨before ++ es, by rw [events_foldl_record, hbefore, List.append_assoc], ?_⟩
  have hnone : before.filter Event.isError = [] :=
    List.filter_eq_nil_iff.2 fun e he => by simp [hquiet e he]
  rw [List.filter_append, hnone, List.filter_eq_self.2 hes, List.nil_append]

end World

theorem hushed_debug (message : String) : Moves h Hushed (debug message) := by
  intro w
  change Hushed w (if w.verbosity.shows .debug then w.record (.logged .debug message) else w)
  split
  · exact extends_record (P := fun e => e.isError = false) rfl w
  · exact Extends.refl w

theorem Exec.hushed_run (r : Request) : Moves h Hushed (Exec.run r) := by
  have hlog (c : Completed) : Moves h Hushed (logEnd r c) := by
    unfold logEnd
    split
    · exact hushed_debug _
    · refine (hushed_debug _).bind fun _ => Moves.ite ?_ (moves_pure _)
      exact ((hushed_debug _).bind fun _ => (hushed_debug _).ite (moves_pure _)).ite
        ((hushed_debug _).ite (moves_pure _))
  have hspawn (s : Spawn) : Moves h Hushed (spawn s) := by
    intro w
    exact ⟨_, (spawn_events s h w).2, by simp [Event.isError]⟩
  intro w
  simp only [Exec.run, go_bind_ok (go_host h w), go_bind_ok (go_tree h w), go_bind_ok (go_here h w)]
  split
  · exact Extends.refl w
  · refine (moves_cwd.bind fun here => Moves.bind (fun w => ?_) fun cwd =>
      (hushed_debug _).bind fun _ => (hspawn _).bind fun c => (hlog c).bind fun _ =>
        moves_ofExcept _ _) w
    rw [go_resolve]
    exact Extends.refl w

theorem Tolerance.accepts_anything (stderr : String) : Tolerance.anything.accepts stderr = true := by
  have hhere (c : Cursor) : (Tolerance.anything.regex.run c some).isSome = true := by
    simp [Tolerance.anything, Regex.star, Regex.run, Regex.exactly, Regex.optionally,
      Regex.roundsLeft, Regex.manyOf]
  show (Regex.searchFrom _ [] stderr.toList).isSome = true
  cases stderr.toList with
  | nil => exact hhere _
  | cons c rest => simp [Regex.searchFrom, hhere]

namespace Git

variable {g : Git}

/-- Of git only the way it ended counts, whatever it wrote. -/
theorem classify_request (g : Git) (args : List String) (c : Completed) :
    classify (g.request args) c = match c.ending with
      | .signalled n => .error (.killed (g.request args).commandLine n)
      | .exited code =>
        if code = 0 then .ok ⟨code, someText c.stdout, someText c.stderr⟩
        else .error (.badExit (g.request args).commandLine code c.stdout c.stderr) := by
  have htolerated : ((g.request args).tolerated.any fun t => t.accepts c.stderr) = true := by
    simp [request, Tolerance.accepts_anything]
  have hcodes : (g.request args).okExitCodes = [0] := rfl
  unfold classify
  cases c.ending with
  | signalled n => rfl
  | exited code => by_cases hcode : code = 0 <;> simp [hcodes, hcode, htolerated]

/-- Git as it is installed answers with what it wrote. -/
theorem go_ask_of_run (hgit : h.git = none) {x : Except Failure Output} {w₁ : World σ}
    (hrun : (Exec.run (g.request args)).go h w = (x, w₁)) :
    (g.ask args).go h w = (x.map (·.stdout.getD ""),
      w₁.record (.asked args (x.map (·.stdout.getD "")))) := by
  have hanswer : (g.answer args).go h w = (x.map (·.stdout.getD ""), w₁) := by
    rw [answer, go_bind_ok (go_host h w), hgit]
    simp only [go_bind, hrun]
    cases x <;> rfl
  have hfirst := go_attempt (g.answer args) h w
  rw [hanswer] at hfirst
  rw [ask, go_bind_ok hfirst, go_bind_ok (go_record _ h w₁), go_ofExcept]
  cases x <;> rfl

/-- Said of a stash that could not be brought back. -/
def popError (x : ExecError) : Event := .logged .error ("Error popping stash: " ++ x.message)

/-- How asking for a stash back ends, and the errors that are logged, by what becomes of git. -/
inductive Pops (g : Git) (h : Host σ) (w : World σ) : Except Failure Unit → List Event → Prop
  | notFound (hends : (g.request popArgs).Ends h w .notFound) :
    Pops g h w (.ok ()) [popError (.notFound "git" (searchPath (overlay h.env [])))]
  | killed {c : Completed} {n : Nat} (hends : (g.request popArgs).Ends h w (.ended c))
      (hc : c.ending = .signalled n) : Pops g h w (.ok ()) [popError (.killed "git stash pop" n)]
  | failed {c : Completed} {code : Int} (hends : (g.request popArgs).Ends h w (.ended c))
      (hc : c.ending = .exited code) (hcode : code ≠ 0) :
    Pops g h w (.ok ()) [popError (.badExit "git stash pop" code c.stdout c.stderr)]
  | back {c : Completed} (hends : (g.request popArgs).Ends h w (.ended c))
      (hc : c.ending = .exited 0) : Pops g h w (.ok ()) []
  | refused {e : OsError} (hends : (g.request popArgs).Ends h w (.refused e)) :
    Pops g h w (.error (.os e)) []
  | unfit (hunfit : (g.request popArgs).Unfit h w) : Pops g h w (.error (.crash .unfitStart)) []
  | circle {exe : String}
      (hfound : lookup? w.tree h.cwd "git" (searchPath (overlay h.env [])) = some exe)
      (hdirectory : w.tree.resolve h.cwd g.cwd = .error .circle) :
    Pops g h w (.error (.crash .linkCircle)) []
  | nul {exe : String}
      (hfound : lookup? w.tree h.cwd "git" (searchPath (overlay h.env [])) = some exe)
      (hdirectory : w.tree.resolve h.cwd g.cwd = .error .nul) :
    Pops g h w (.error (.crash .nulInPath)) []

theorem Pops.of_eq {r : Except Failure Unit} {errors : List Event} (hp : g.Pops h w r errors)
    (htree : w'.tree = w.tree) (hmind : w'.mind = w.mind) : g.Pops h w' r errors := by
  cases hp with
  | notFound hends => exact .notFound (hends.of_eq htree hmind)
  | killed hends hc => exact .killed (hends.of_eq htree hmind) hc
  | failed hends hc hcode => exact .failed (hends.of_eq htree hmind) hc hcode
  | back hends hc => exact .back (hends.of_eq htree hmind) hc
  | refused hends => exact .refused (hends.of_eq htree hmind)
  | unfit hunfit => exact .unfit (hunfit.of_eq htree hmind)
  | circle hfound hdirectory => exact .circle (by rwa [htree]) (by rwa [htree])
  | nul hfound hdirectory => exact .nul (by rwa [htree]) (by rwa [htree])

theorem isError_of_pops {r : Except Failure Unit} {errors : List Event} (hp : g.Pops h w r errors) :
    ∀ e ∈ errors, e.isError = true := by
  cases hp <;> simp [popError, Event.isError]

/-- The command of git ends in one way or another, or there is no process for it, or its directory is not
found. -/
theorem ends_cases (g : Git) (args : List String) (h : Host σ) (w : World σ) :
    (∃ way, (g.request args).Ends h w way ∧
      ∃ w₁, (Exec.run (g.request args)).go h w = ((g.request args).outcome h way, w₁)) ∨
    ((g.request args).Unfit h w ∧
      ∃ w₁, (Exec.run (g.request args)).go h w = (.error (.crash .unfitStart), w₁)) ∨
    ∃ exe, lookup? w.tree h.cwd "git" (searchPath (overlay h.env [])) = some exe ∧
      ((w.tree.resolve h.cwd g.cwd = .error .circle ∧
          (Exec.run (g.request args)).go h w = (.error (.crash .linkCircle), w)) ∨
        (w.tree.resolve h.cwd g.cwd = .error .nul ∧
          (Exec.run (g.request args)).go h w = (.error (.crash .nulInPath), w))) := by
  cases hfound : lookup? w.tree h.cwd "git" (searchPath (overlay h.env [])) with
  | none =>
    have hends : (g.request args).Ends h w .notFound := .notFound hfound
    exact .inl ⟨_, hends, run_ends hends⟩
  | some exe =>
    have hlookup : lookup? w.tree h.cwd (g.request args).exe
        (searchPath (overlay h.env (g.request args).env)) = some exe := hfound
    cases hdirectory : w.tree.resolve h.cwd g.cwd with
    | ok directory =>
      rcases Request.ends_or_unfit (r := g.request args) (w := w) hdirectory with ⟨way, hends⟩ | hunfit
      · exact .inl ⟨way, hends, run_ends hends⟩
      · exact .inr (.inl ⟨hunfit, run_unfit hunfit⟩)
    | error c =>
      have hresolve : w.tree.resolve h.cwd ((g.request args).inDir.getD ⟨.root, h.cwd⟩) = .error c :=
        hdirectory
      cases c with
      | circle =>
        have hspawn : spawnOf h w.tree (g.request args) = .error (.crash .linkCircle) := by
          simp only [spawnOf, hlookup, hresolve]
          rfl
        exact .inr (.inr ⟨exe, rfl, .inl ⟨rfl, go_run_error _ hspawn⟩⟩)
      | nul =>
        have hspawn : spawnOf h w.tree (g.request args) = .error (.crash .nulInPath) := by
          simp only [spawnOf, hlookup, hresolve]
          rfl
        exact .inr (.inr ⟨exe, rfl, .inr ⟨rfl, go_run_error _ hspawn⟩⟩)

/-- What the one who asked for a stash back makes of the way in which git ended. -/
theorem pops_of_returns {way : Way} (hends : (g.request popArgs).Ends h w way) {notes : List Event}
    {r : Except Failure Unit}
    (hreturns : Returns (((g.request popArgs).outcome h way).map (·.stdout.getD "")) notes r) :
    g.Pops h w r notes := by
  have hline : (g.request popArgs).commandLine = "git stash pop" := rfl
  cases way with
  | notFound =>
    cases hreturns with
    | refused => exact .notFound hends
    | broken _ hother => exact absurd rfl (hother _)
  | refused e =>
    cases hreturns with
    | broken => exact .refused hends
  | ended c =>
    rw [Request.outcome, classify_request, hline] at hreturns
    cases hc : c.ending with
    | signalled n =>
      rw [hc] at hreturns
      cases hreturns with
      | refused => exact .killed hends hc
      | broken _ hother => exact absurd rfl (hother _)
    | exited code =>
      simp only [hc] at hreturns
      by_cases hcode : code = 0
      · subst hcode
        cases hreturns with
        | back => exact .back hends hc
      · rw [if_neg hcode] at hreturns
        cases hreturns with
        | refused => exact .failed hends hc hcode
        | broken _ hother => exact absurd rfl (hother _)

/-- Asking for a stash back, there is an error for each way that it can fail once git is there. -/
theorem release_pops (hgit : h.git = none) (g : Git) (w : World σ) : ∃ r errors w',
    g.Pops h w r errors ∧ (g.release true).go h w = (r, w') ∧ Voices errors w w' := by
  have hhushed := hushed_run (h := h) (g.request popArgs) w
  -- what is left to show is that the outcome of the command leads to one of the ways
  have hrest {x : Except Failure Output} {w₁ : World σ}
      (hrun : (Exec.run (g.request popArgs)).go h w = (x, w₁))
      (hpops : ∀ notes r, Returns (x.map (·.stdout.getD "")) notes r → g.Pops h w r notes) :
      ∃ r errors w', g.Pops h w r errors ∧ (g.release true).go h w = (r, w') ∧ Voices errors w w' := by
    rw [hrun] at hhushed
    obtain ⟨notes, r, hreturns, hgo⟩ := go_release_of_ask (go_ask_of_run hgit hrun)
    have hp := hpops notes r hreturns
    have hasked : Hushed w (w₁.record (.asked popArgs (x.map (·.stdout.getD "")))) :=
      hhushed.trans (extends_record (P := fun e => e.isError = false) rfl w₁)
    exact ⟨r, notes, _, hp, hgo, hasked.voices (isError_of_pops hp)⟩
  rcases ends_cases g popArgs h w with
    ⟨way, hends, w₁, hrun⟩ | ⟨hunfit, w₁, hrun⟩ | ⟨exe, hfound, ⟨hcircle, hrun⟩ | ⟨hnul, hrun⟩⟩
  · exact hrest hrun fun notes r => pops_of_returns hends
  · refine hrest hrun fun notes r hreturns => ?_
    cases hreturns with
    | broken => exact .unfit hunfit
  · refine hrest hrun fun notes r hreturns => ?_
    cases hreturns with
    | broken => exact .circle hfound hcircle
  · refine hrest hrun fun notes r hreturns => ?_
    cases hreturns with
    | broken => exact .nul hfound hnul

end Git

namespace Selector

/-- What closing a selection comes to: a stash that is held is asked for, and nothing else is done. -/
inductive Closes (s : Selector) (h : Host σ) (w : World σ) : Except Failure Unit → List Event → Prop
  | held {r : Except Failure Unit} {errors : List Event} (hheld : w.holdsStash = true)
      (hpops : s.git.Pops h w r errors) : Closes s h w r errors
  | free (hfree : w.holdsStash = false) : Closes s h w (.ok ()) []

theorem close_closes (hgit : h.git = none) (s : Selector) (w : World σ) : ∃ r errors w',
    s.Closes h w r errors ∧ s.close.go h w = (r, w') ∧ Voices errors w w' := by
  cases hheld : w.holdsStash with
  | false =>
    obtain ⟨w', hclose, -, hevents⟩ := go_close_of_not_held s (h := h) hheld
    exact ⟨.ok (), [], w', .free hheld, hclose, [], by rw [hevents, List.append_nil], rfl⟩
  | true =>
    obtain ⟨r, errors, w₂, hpops, hgo, es, hes, hvoiced⟩ := Git.release_pops hgit s.git
      { w with holding := { w.holding with stash := some false } }
    obtain ⟨w', hclose, hevents⟩ := go_close_of_release s hheld hgo
    exact ⟨r, errors, w', .held hheld (hpops.of_eq rfl rfl), hclose, es, hevents.trans hes, hvoiced⟩

end Selector

namespace Pass

variable {p : Pass} {l : Config.Loaded} {r : Reporter} {workers : Int} {cwd : Path}

/-- What a pass comes to before its selection is closed. -/
def beforeClose (p : Pass) (l : Config.Loaded) (r : Reporter) (workers : Int) (cwd : Path) :
    Run σ (Selector × Except Failure Exit) := do
  r.starting p.action.title p.mode.describe
  let fs ← Run.ofExcept id (p.filters l)
  let s ← Selector.start p.mode l.root (some cwd) l.project.excludes none
  return (s, ← Run.attempt (p.overSelection r workers fs s))

/-- Only a failure to close the selection takes the place of what the pass has come to. -/
theorem go_run_of_beforeClose {s : Selector} {out : Except Failure Exit} {w₁ w' : World σ}
    {closed : Except Failure Unit}
    (hbefore : (p.beforeClose l r workers cwd).go h w = (.ok (s, out), w₁))
    (hclose : s.close.go h w₁ = (closed, w')) :
    (p.run l r workers cwd).go h w = (closed >>= fun _ => out, w') := by
  obtain ⟨_, w₂, hstarting, hrest⟩ := of_go_bind_ok hbefore
  obtain ⟨fs, w₃, hfs, hrest⟩ := of_go_bind_ok hrest
  obtain ⟨s', w₄, hstart, hrest⟩ := of_go_bind_ok hrest
  have hover : (Run.attempt (p.overSelection r workers fs s')).go h w₄ =
      (.ok ((p.overSelection r workers fs s').go h w₄).1, ((p.overSelection r workers fs s').go h w₄).2) :=
    go_attempt _ h w₄
  rw [go_bind_ok hover] at hrest
  cases hrest
  rw [run, go_bind_ok hstarting, go_bind_ok hfs, go_bind_ok hstart, go_ensuring, hclose]
  cases closed <;> rfl

/-- However git ends when it is asked for the stash, the asking is over with one error logged, or none
where the stash is back, and the pass ends as it has come to end; but where git could not be started,
though it is there, or its directory not be found, the pass ends with that and nothing is logged. -/
theorem pop_contained (hgit : h.git = none) {s : Selector} {out : Except Failure Exit} {w₁ : World σ}
    (hbefore : (p.beforeClose l r workers cwd).go h w = (.ok (s, out), w₁)) :
    (∀ g : Git, ∃ released errors w', g.Pops h w₁ released errors ∧
      (g.release true).go h w₁ = (released, w') ∧ Voices errors w₁ w') ∧
    ∃ closed errors w', s.Closes h w₁ closed errors ∧ s.close.go h w₁ = (closed, w') ∧
      Voices errors w₁ w' ∧ (p.run l r workers cwd).go h w = (closed >>= fun _ => out, w') := by
  refine ⟨fun g => Git.release_pops hgit g w₁, ?_⟩
  obtain ⟨closed, errors, w', hcloses, hclose, hvoices⟩ := Selector.close_closes hgit s w₁
  exact ⟨closed, errors, w', hcloses, hclose, hvoices, go_run_of_beforeClose hbefore hclose⟩

end Pass

namespace Sample

/-- Git is asked as any other command is. -/
def plainHost : Host Script := Script.host ["p"] [("PATH", "/bin")] false false

/-- One file is staged, there is something to put aside, and this comes of asking for it. -/
def asking (outcome : Except Errno Completed) : World Script where
  tree := ⟨(["bin", "git"], .file .empty true) :: tree.entries⟩
  mind := { processes := [
    { exe := some "git", arg := some "--show-toplevel", outcome := .ok ⟨.exited 0, "/p\n", ""⟩ },
    { exe := some "git", arg := some "--cached", outcome := .ok ⟨.exited 0, "a.py\n", ""⟩ },
    { exe := some "git", arg := some "pop", outcome }] }
  history := []
  holding := {}
  verbosity := .warning

def checked : Config.Loaded := { loaded with project := ⟨[], [("check", command .lint "tool" [])]⟩ }

end Sample

namespace Pass

open Sample in
theorem pop_contained_conflict : plainHost.git = none ∧
    ∃ s out w₁ closed errors w', (pass.beforeClose checked {} 1 root).go plainHost
        (asking (.ok ⟨.exited 1, "", "conflict"⟩)) = (.ok (s, out), w₁) ∧ w₁.holdsStash = true ∧
      s.Closes plainHost w₁ closed errors ∧ Voices errors w₁ w' ∧
      (pass.run checked {} 1 root).go plainHost (asking (.ok ⟨.exited 1, "", "conflict"⟩)) =
        (.ok { status := .ok }, w') := by
  have hruns : (pass.beforeClose checked {} 1 root).comesTo plainHost
      (asking (.ok ⟨.exited 1, "", "conflict"⟩)) (fun before w₁ =>
        before.1.close.comesTo plainHost w₁ fun _ _ => before.2.toOption.any fun exit =>
          decide (w₁.holdsStash = true ∧ exit = { status := .ok })) = true := by decide +kernel
  obtain ⟨⟨s, out⟩, w₁, hbefore, hruns⟩ := of_comesTo hruns
  obtain ⟨_, w₂, hclose, hruns⟩ := of_comesTo hruns
  obtain ⟨exit, hout, hruns⟩ := of_any_toOption hruns
  obtain ⟨hheld, rfl⟩ := of_decide_eq_true hruns
  cases hout
  obtain ⟨-, closed, errors, w', hcloses, hclosed, hvoices, hrun⟩ := pop_contained rfl hbefore
  obtain ⟨rfl, rfl⟩ := Prod.mk.inj (hclose.symm.trans hclosed)
  exact ⟨rfl, s, _, w₁, _, errors, _, hbefore, hheld, hcloses, hvoices, hrun⟩

open Sample in
/-- Where git is there but cannot be started, the asking ends with that. -/
theorem not_pop_contained : ¬ ∀ (g : Git) (h : Host Script) (w : World Script), h.git = none →
    ((g.release true).go h w).1 = .ok () := by
  have hfails : (match ((Git.mk root).release true).go plainHost (asking (.error 8)) with
      | (.ok _, _) => false
      | (.error _, _) => true) = true := by decide +kernel
  intro hall
  have hok := hall ⟨root⟩ plainHost (asking (.error 8)) rfl
  split at hfails
  · cases hfails
  · next hgo =>
    rw [hgo] at hok
    cases hok

end Pass

end LintRunner
