import LintRunner.Proofs.Filter.Frame
import LintRunner.Proofs.Pass.Attempts

/-! A target in steps. A target is looked at and captured, its command is started, and it is compared
with what was captured. Taken one after another the steps are the attempt at the target. -/

namespace LintRunner

open Run World Pass

variable {σ : Type} {h : Host σ} {a : Action} {f : Filter} {scope : Filter.Scope} {t : Target}
  {w w' : World σ}

/-- How far a target has come. -/
inductive Stage where
  | waiting
  /-- Captured, if that is to be compared, with the command still to come. -/
  | ready (before : Option Snapshot)
  | ran (before : Snapshot)
  | ended (r : Except Failure (Option Result))

namespace Stage

section Steps

variable (h : Host σ) (a : Action) (f : Filter) (scope : Filter.Scope) (t : Target)

/-- What comes once the command has ended with `o`. -/
def onward (before : Option Snapshot) (o : Exec.Output) : Stage :=
  match before, a with
  | some s, _ => ran s
  | none, .lint => ended (.ok (some (.linted (f.lintOutcome o))))
  | none, .tidy => ended (.ok (some (.tidied .indeterminate)))

/-- The next step. -/
def advance : Stage → Run σ Stage
  | waiting => do
    f.requireKind a
    f.checkScope t.path scope
    if ← f.applies t.path t.files scope then
      if a = .tidy ∧ scope ≠ .root then
        return ready (some (← Snapshot.capture f.root t.path f.covers))
      else return ready none
    else return ended (.ok none)
  | ready before => do return onward a f before (← f.start a t.path t.files scope)
  | ran before => do
    return ended (.ok (some (.tidied (if ← before.changed f.covers then .changed else .unchanged))))
  | ended r => return ended r

/-- A target has ended once it has failed, and keeps what it can to itself. -/
def broken (e : Failure) (w : World σ) : Stage × World σ :=
  match recorded? e with
  | none => (ended (.error e), w)
  | some reason =>
    (ended (.ok (some (.failed reason))),
      ((Run.debug (f.name ++ " failed for " ++ t.path.text ++ ": " ++ reason)).go h w).2)

def settle (r : Except Failure Stage × World σ) : Stage × World σ :=
  match r with
  | (.ok s, w) => (s, w)
  | (.error e, w) => broken h f t e w

/-- The stage and the world after the next step. -/
def after (c : Stage × World σ) : Stage × World σ := settle h f t ((c.1.advance a f scope t).go h c.2)

/-- All the steps that are still to come. -/
def rest : Stage → Run σ (Option Result)
  | waiting => attemptTarget a f scope t
  | ready before => do
    let o ← f.start a t.path t.files scope
    match before, a with
    | some s, _ => return some (.tidied (if ← s.changed f.covers then .changed else .unchanged))
    | none, .lint => return some (.linted (f.lintOutcome o))
    | none, .tidy => return some (.tidied .indeterminate)
  | ran before => do return some (.tidied (if ← before.changed f.covers then .changed else .unchanged))
  | ended r => Run.ofExcept id r

/-- How a target ends with its last steps. -/
def close (r : Except Failure (Option Result) × World σ) : Stage × World σ :=
  settle h f t (r.1.map fun o => ended (.ok o), r.2)

end Steps

theorem rest_eq (s : Stage) : s.rest (σ := σ) a f scope t = s.advance a f scope t >>= rest a f scope t := by
  cases s with
  | waiting =>
    cases a with
    | lint =>
      simp only [rest, advance, attemptTarget, Filter.lint, bind_assoc]
      refine bind_congr fun _ => bind_congr fun _ => bind_congr fun b => ?_
      cases b with
      | false => rfl
      | true => simp [rest]
    | tidy =>
      simp only [rest, advance, attemptTarget, Filter.tidy, bind_assoc]
      refine bind_congr fun _ => bind_congr fun _ => bind_congr fun b => ?_
      cases b with
      | false => rfl
      | true =>
        by_cases hscope : scope = .root
        · simp [rest, hscope]
        · simp [rest, hscope]
  | ready before =>
    cases before with
    | none => cases a <;> simp [rest, advance, onward, Run.ofExcept]
    | some s => simp [rest, advance, onward]
  | ran before => simp [rest, advance, Run.ofExcept]
  | ended r => simp [rest, advance]

@[simp] theorem after_ended (r : Except Failure (Option Result)) (w : World σ) :
    after h a f scope t (ended r, w) = (ended r, w) := rfl

/-- Once a target has ended it stays so. -/
theorem iterate_after_ended (n : Nat) (r : Except Failure (Option Result)) (w : World σ) :
    (after h a f scope t)^[n] (ended r, w) = (ended r, w) := Function.iterate_fixed (after_ended r w) n

/-- The steps that a target can still be from its end. -/
def steps : Stage → Nat
  | waiting => 3
  | ready _ => 2
  | ran _ => 1
  | ended _ => 0

theorem ended_broken (e : Failure) (w : World σ) : ∃ r w', broken h f t e w = (ended r, w') := by
  unfold broken
  split
  · exact ⟨_, _, rfl⟩
  · exact ⟨_, _, rfl⟩

/-- Each step brings a target closer to its end, and none that goes well ends in a failure. -/
theorem gives_advance {s : Stage} (hs : ∀ r, s ≠ ended r) :
    Gives h (fun s' => s'.steps < s.steps ∧ ∀ e, s' ≠ ended (.error e)) (s.advance a f scope t) := by
  cases s with
  | waiting =>
    refine Gives.after _ fun _ => Gives.after _ fun _ => Gives.after _ fun b => ?_
    refine Gives.ite (Gives.ite (Gives.after _ fun s => ?_) ?_) ?_
    · exact gives_pure (by simp [steps])
    · exact gives_pure (by simp [steps])
    · exact gives_pure (by simp [steps])
  | ready before =>
    refine Gives.after _ fun o => ?_
    unfold onward
    split
    · exact gives_pure (by simp [steps])
    · exact gives_pure (by simp [steps])
    · exact gives_pure (by simp [steps])
  | ran before => exact Gives.after _ fun b => gives_pure (by simp [steps])
  | ended r => exact absurd rfl (hs r)

theorem steps_after {s : Stage} (hs : ∀ r, s ≠ ended r) (w : World σ) :
    (after h a f scope t (s, w)).1.steps < s.steps := by
  have hgives : Gives h _ (s.advance a f scope t) := gives_advance hs
  have hgives := hgives w
  unfold after
  revert hgives
  dsimp only
  rcases (s.advance a f scope t).go h w with ⟨e | s', w'⟩
  · intro _
    obtain ⟨r, w'', hbroken⟩ := ended_broken (h := h) (f := f) (t := t) e w'
    change (broken h f t e w').1.steps < s.steps
    rw [hbroken]
    cases s with
    | ended r => exact absurd rfl (hs r)
    | waiting => exact Nat.zero_lt_succ 2
    | ready before => exact Nat.zero_lt_succ 1
    | ran before => exact Nat.zero_lt_succ 0
  · intro hgives
    exact (hgives s' rfl).1

theorem iterate_after {n : Nat} {s : Stage} (hs : ∀ e, s ≠ ended (.error e)) (hn : s.steps ≤ n)
    (w : World σ) : (after h a f scope t)^[n] (s, w) = close h f t ((s.rest a f scope t).go h w) := by
  induction n generalizing s w with
  | zero =>
    cases s with
    | ended r =>
      cases r with
      | ok o => rfl
      | error e => exact absurd rfl (hs e)
    | waiting => cases hn
    | ready before => cases hn
    | ran before => cases hn
  | succ n ih =>
    by_cases hover : ∃ r, s = ended r
    · obtain ⟨r, rfl⟩ := hover
      cases r with
      | ok o => exact iterate_after_ended _ _ w
      | error e => exact absurd rfl (hs e)
    · have hgives : Gives h _ (s.advance a f scope t) := gives_advance fun r hr => hover ⟨r, hr⟩
      have hgives := hgives w
      rw [rest_eq, go_bind, Function.iterate_succ_apply, after]
      revert hgives
      dsimp only
      rcases (s.advance a f scope t).go h w with ⟨e | s', w'⟩
      · intro _
        obtain ⟨r, w'', hbroken⟩ := ended_broken (h := h) (f := f) (t := t) e w'
        change (after h a f scope t)^[n] (broken h f t e w') = broken h f t e w'
        rw [hbroken, iterate_after_ended]
      · intro hgives
        obtain ⟨hless, hfine⟩ := hgives s' rfl
        exact ih hfine (by omega) w'

end Stage

namespace Attempt

variable (x : Attempt σ)

/-- Three steps make up an attempt. -/
theorem iterate_after : (Stage.after h a x.filter x.scope x.target)^[3] (.waiting, x.begun) =
    (.ended (x.kept h a), x.left h a) := by
  rw [Stage.iterate_after (by simp) (Nat.le_refl 3)]
  unfold kept left ending
  rw [runTarget, go_bind_ok (go_attempt _ h x.begun)]
  dsimp only [Stage.rest, Stage.close]
  rcases (attemptTarget a x.filter x.scope x.target).go h x.begun with ⟨e | o, w⟩
  · change Stage.broken h x.filter x.target e w = _
    unfold Stage.broken
    cases hrec : recorded? e with
    | none =>
      simp only [hrec]
      rfl
    | some reason =>
      simp only [hrec]
      rfl
  · rfl

end Attempt

end LintRunner
