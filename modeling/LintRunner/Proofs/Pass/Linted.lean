import LintRunner.Proofs.Filter.Frame
import LintRunner.Proofs.Filter.Tidy

/-! What a linter has found, by the way in which its command ended. The codes that pass and those that
fail are two sets that share none, and only where one of them and the error stream allow it is there a
verdict. In every other way the command ends in an error, the same one each time. -/

namespace LintRunner

open World Run Pass

variable {σ : Type} {h : Host σ} {w w' : World σ}

namespace Exec

/-- The ways in which a command can end, also before it is started. -/
inductive Way where
  | notFound
  | refused (e : OsError)
  | ended (c : Completed)

/-- In `w`, the command of `r` ends that way. -/
inductive Request.Ends (r : Request) (h : Host σ) (w : World σ) : Way → Prop
  | notFound (hnone : lookup? w.tree h.cwd r.exe (searchPath (overlay h.env r.env)) = none) :
      r.Ends h w .notFound
  | refused {s : Spawn} {e : OsError} (hs : spawnOf h w.tree r = .ok s)
      (he : (h.spawn s w.tree w.mind).1 = .error (.os e)) : r.Ends h w (.refused e)
  | ended {s : Spawn} {c : Completed} (hs : spawnOf h w.tree r = .ok s)
      (hc : (h.spawn s w.tree w.mind).1 = .ok c) : r.Ends h w (.ended c)

/-- What the one who asked is told. -/
def Request.outcome (r : Request) (h : Host σ) : Way → Except Failure Output
  | .notFound => .error (.exec (.notFound r.exe (searchPath (overlay h.env r.env))))
  | .refused e => .error (.os e)
  | .ended c => (classify r c).mapError .exec

variable {r : Request} {way : Way}

/-- The command of `r` is not one that a process can have. -/
def Request.Unfit (r : Request) (h : Host σ) (w : World σ) : Prop :=
  ∃ s, spawnOf h w.tree r = .ok s ∧ (h.spawn s w.tree w.mind).1 = .error .unfit

/-- A command whose directory is found ends in one way or another, or there is no process for it. -/
theorem Request.ends_or_unfit {directory : Path}
    (hdirectory : w.tree.resolve h.cwd (r.inDir.getD ⟨.root, h.cwd⟩) = .ok directory) :
    (∃ way, r.Ends h w way) ∨ r.Unfit h w := by
  cases hfound : lookup? w.tree h.cwd r.exe (searchPath (overlay h.env r.env)) with
  | none => exact .inl ⟨_, .notFound hfound⟩
  | some exe =>
    have hs : spawnOf h w.tree r = .ok ⟨exe :: r.args, directory, overlay h.env r.env⟩ := by
      simp only [spawnOf, hfound, hdirectory]
      rfl
    cases hspawned : (h.spawn ⟨exe :: r.args, directory, overlay h.env r.env⟩ w.tree w.mind).1 with
    | error e =>
      cases e with
      | os e => exact .inl ⟨_, .refused hs hspawned⟩
      | unfit => exact .inr ⟨_, hs, hspawned⟩
    | ok c => exact .inl ⟨_, .ended hs hspawned⟩

theorem Request.Ends.of_eq (hends : r.Ends h w way) (htree : w'.tree = w.tree)
    (hmind : w'.mind = w.mind) : r.Ends h w' way := by
  cases hends with
  | notFound hnone => exact .notFound (by rwa [htree])
  | refused hs he => exact .refused (by rwa [htree]) (by rwa [htree, hmind])
  | ended hs hc => exact .ended (by rwa [htree]) (by rwa [htree, hmind])

theorem Request.Unfit.of_eq (hunfit : r.Unfit h w) (htree : w'.tree = w.tree) (hmind : w'.mind = w.mind) :
    r.Unfit h w' := by
  unfold Request.Unfit at hunfit ⊢
  rwa [htree, hmind]

theorem run_unfit (hunfit : r.Unfit h w) :
    ∃ w', (Exec.run r).go h w = (.error (.crash .unfitStart), w') := by
  obtain ⟨s, hs, he⟩ := hunfit
  obtain ⟨w', hrun, -⟩ := go_run_ok r hs
  rw [he] at hrun
  exact ⟨w', hrun⟩

theorem run_ends (hends : r.Ends h w way) : ∃ w', (Exec.run r).go h w = (r.outcome h way, w') := by
  cases hends with
  | notFound hnone =>
    have hs : spawnOf h w.tree r =
        .error (.exec (.notFound r.exe (searchPath (overlay h.env r.env)))) := by rw [spawnOf, hnone]
    exact ⟨w, go_run_error r hs⟩
  | refused hs he =>
    obtain ⟨w', hrun, -⟩ := go_run_ok r hs
    rw [he] at hrun
    exact ⟨w', hrun⟩
  | ended hs hc =>
    obtain ⟨w', hrun, -⟩ := go_run_ok r hs
    rw [hc] at hrun
    exact ⟨w', hrun⟩

end Exec

namespace Filter

open Exec (Way)

variable {f : Filter} {a : Action} {p : Path} {files : List Path} {scope : Scope} {r : Exec.Request}
  {way : Way} {params : Params} {root : Path}

variable (f) in
/-- Nothing was written on the error stream, or it is excused. -/
def Quiet (stderr : String) : Prop := stderr = "" ∨ ∃ t ∈ f.tolerated, t.accepts stderr = true

variable (f) in
/-- What a linter tells of a target whose command ended that way. -/
inductive Judges (h : Host σ) (r : Exec.Request) : Way → Except Failure (Option LintOutcome) → Prop
  | passed {code : Int} {out err : String} (hcode : code ∈ f.params.okExitCodes) (herr : f.Quiet err) :
      Judges h r (.ended ⟨.exited code, out, err⟩)
        (.ok (some ⟨true, Exec.someText out, Exec.someText err⟩))
  | failed {code : Int} {out err : String} (hcode : code ∈ f.params.lintFailureExitCodes)
      (herr : f.Quiet err) :
      Judges h r (.ended ⟨.exited code, out, err⟩)
        (.ok (some ⟨false, Exec.someText out, Exec.someText err⟩))
  | notFound : Judges h r .notFound
      (.error (.exec (.notFound r.exe (Exec.searchPath (Exec.overlay h.env r.env)))))
  | refused {e : OsError} : Judges h r (.refused e) (.error (.os e))
  | killed {signal : Nat} {out err : String} :
      Judges h r (.ended ⟨.signalled signal, out, err⟩) (.error (.exec (.killed r.commandLine signal)))
  | badExit {code : Int} {out err : String} (hok : code ∉ f.params.okExitCodes)
      (hfail : code ∉ f.params.lintFailureExitCodes) :
      Judges h r (.ended ⟨.exited code, out, err⟩)
        (.error (.exec (.badExit r.commandLine code out err)))
  | badStderr {code : Int} {out err : String}
      (hcode : code ∈ f.params.okExitCodes ∨ code ∈ f.params.lintFailureExitCodes)
      (herr : ¬ f.Quiet err) :
      Judges h r (.ended ⟨.exited code, out, err⟩) (.error (.exec (.badStderr r.commandLine err)))

/-- One way to end, one thing to tell. -/
theorem Judges.unique {x y : Except Failure (Option LintOutcome)}
    (hdisjoint : ∀ c ∈ f.params.okExitCodes, c ∉ f.params.lintFailureExitCodes)
    (hx : f.Judges h r way x) (hy : f.Judges h r way y) : x = y := by
  cases hx with
  | notFound => cases hy; rfl
  | refused => cases hy; rfl
  | killed => cases hy; rfl
  | passed hok herr =>
    cases hy with
    | passed _ _ => rfl
    | failed hfail _ => exact absurd hfail (hdisjoint _ hok)
    | badExit hno _ => exact absurd hok hno
    | badStderr _ hloud => exact absurd herr hloud
  | failed hfail herr =>
    cases hy with
    | passed hok _ => exact absurd hfail (hdisjoint _ hok)
    | failed _ _ => rfl
    | badExit _ hno => exact absurd hfail hno
    | badStderr _ hloud => exact absurd herr hloud
  | badExit hnok hnfail =>
    cases hy with
    | passed hok _ => exact absurd hok hnok
    | failed hfail _ => exact absurd hfail hnfail
    | badExit _ _ => rfl
    | badStderr hcode _ => exact absurd hcode (not_or.2 ⟨hnok, hnfail⟩)
  | badStderr hcode hloud =>
    cases hy with
    | passed _ herr => exact absurd herr hloud
    | failed _ herr => exact absurd herr hloud
    | badExit hnok hnfail => exact absurd hcode (not_or.2 ⟨hnok, hnfail⟩)
    | badStderr _ _ => rfl

end Filter

variable {f : Filter} {scope : Filter.Scope} {t : Target} {r : Exec.Request} {way : Exec.Way}
  {params : Filter.Params} {root : Path}

/-- A linter whose warnings are excused. -/
def Sample.warning : Config.Command := { command .lint "tool" [] with ignoreStderr := ["^warn"] }

/-- The tool finds fault, and warns. -/
def Sample.faulty : World Script :=
  world { processes := [{ outcome := .ok ⟨.exited 1, "", "warned"⟩ }] }

end LintRunner
