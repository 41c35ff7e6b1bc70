import LintRunner.Proofs.Path.Order
import LintRunner.Proofs.Selection.Frame

/-! What is chosen, whichever the source: files named from the project, in order and each once, none
of them excluded by the project. -/

namespace LintRunner

open Run

variable {σ α : Type} {h : Host σ}

namespace Walker

variable (v : Walker) {Q : α → Prop} {step : α → Path → Run σ α}

theorem gives_foldBelow (hstep : ∀ acc p, Q acc → Gives h Q (step acc p)) (levels : Nat)
    (above : List IgnoreFile) (directory : Path) {acc : α} (hacc : Q acc) :
    Gives h Q (v.foldBelow step levels above directory acc) := by
  induction levels generalizing above directory acc with
  | zero => exact gives_pure hacc
  | succ levels ih =>
    unfold foldBelow
    refine .after _ fun entries => .after _ fun own => .after _ fun t => .after _ fun l => ?_
    refine .after _ fun kept => (Gives.foldlM hstep _ hacc).bind fun acc hacc => ?_
    exact Gives.foldlM (fun acc e hacc => ih _ _ hacc) _ hacc

theorem gives_foldFiles (hstep : ∀ acc p, Q acc → Gives h Q (step acc p)) (base : Path) {acc : α}
    (hacc : Q acc) : Gives h Q (v.foldFiles step base acc) :=
  .after _ fun _ => .after _ fun _ => .after _ fun _ => v.gives_foldBelow hstep _ _ _ hacc

end Walker

namespace Selector

variable (s : Selector)

/-- A file that may be chosen. -/
structure Eligible (p : Path) : Prop where
  relative : p.anchor = .relative
  kept : s.excluder.covers p false = false

/-- What a choice looks like. -/
structure Chosen (files : List Path) : Prop where
  ascending : Path.Ascending files
  eligible : ∀ p ∈ files, s.Eligible p

/-- Something that was come upon, by the name that it has in the project, which does not exclude it. -/
structure Admitted (p : Path) : Prop where
  named : ∃ q, s.relativeToRoot? q = .ok p
  kept : s.excluder.covers p false = false

variable {s}

theorem relative_of_relativeToRoot? {p q : Path} (hq : s.relativeToRoot? p = .ok q) :
    q.anchor = .relative := by
  unfold relativeToRoot? at hq
  split at hq
  · next hrel =>
    cases hq
    exact (Path.relativeTo?_eq_some_iff.1 hrel).1
  · cases hq

theorem Admitted.eligible {p : Path} (hp : s.Admitted p) : s.Eligible p := by
  obtain ⟨q, hq⟩ := hp.named
  exact ⟨relative_of_relativeToRoot? hq, hp.kept⟩

theorem gives_relativeToRoot (p : Path) :
    Gives h (fun q => s.relativeToRoot? p = .ok q) (s.relativeToRoot p) :=
  gives_ofExcept fun _ hq => hq

theorem gives_addFound (files : List Path) (found : Path) (hfiles : ∀ p ∈ files, s.Admitted p) :
    Gives h (fun files => ∀ p ∈ files, s.Admitted p) (s.addFound files found) := by
  refine (gives_relativeToRoot found).bind fun p hp => gives_pure ?_
  split
  · exact hfiles
  · next hkept =>
    intro q hq
    rcases List.mem_append.1 hq with hq | hq
    · exact hfiles q hq
    · rw [List.mem_singleton.1 hq]
      exact ⟨⟨found, hp⟩, by simpa using hkept⟩

theorem gives_walkFiles (base : Path) :
    Gives h (fun files => ∀ p ∈ files, s.Admitted p) (s.walkFiles base) :=
  .after _ fun v => v.gives_foldFiles gives_addFound base (by simp)

theorem gives_filesAt (requested : Path) :
    Gives h (fun files => ∀ p ∈ files, s.Admitted p) (s.filesAt requested) := by
  have hrest : Gives h (fun files => ∀ p ∈ files, s.Admitted p) (do
      let p ← s.relativeToRoot (s.cwd / requested)
      let isDirectory ← isDirectory? (σ := σ) (s.cwd / requested)
      if s.excluder.covers p isDirectory then
        debug ("Skipping excluded path " ++ p.text)
        return []
      else if isDirectory then s.walkFiles (← resolve (s.cwd / requested))
      else return [p]) := by
    refine (gives_relativeToRoot _).bind fun p hp => .after _ fun isDirectory => ?_
    split
    · exact .after _ fun _ => gives_pure (by simp)
    · next hkept =>
      cases isDirectory with
      | true => exact .after _ fun _ => gives_walkFiles _
      | false => exact gives_pure (by simpa using ⟨⟨_, hp⟩, by simpa using hkept⟩)
  exact .after _ fun _ => hrest.ite (.after _ fun _ => hrest)

theorem admitted_flatten {parts : List (List Path)} (hparts : ∀ ps ∈ parts, ∀ p ∈ ps, s.Admitted p) :
    ∀ p ∈ parts.flatten, s.Admitted p := by
  intro p hp
  obtain ⟨ps, hps, hp⟩ := List.mem_flatten.1 hp
  exact hparts ps hps p hp

theorem gives_explicitFiles (requested : List Path) :
    Gives h (fun files => ∀ p ∈ files, s.Admitted p) (s.explicitFiles requested) :=
  .after _ fun _ => (Gives.mapM gives_filesAt requested).bind fun _ hparts =>
    gives_pure (admitted_flatten hparts)

theorem gives_fileReported (top : Path) (entry : String) :
    Gives h (fun files => ∀ p ∈ files, s.Admitted p) (s.fileReported top entry) := by
  refine .after _ fun b => .ite ?_ (.after _ fun _ => gives_pure (by simp))
  split
  · exact .after _ fun _ => gives_pure (by simp)
  · next p hp =>
    refine gives_pure ?_
    split
    · simp
    · next hkept =>
      simpa using ⟨⟨_, hp⟩, by simpa using hkept⟩

theorem gives_filesReported (entries : List String) :
    Gives h (fun files => ∀ p ∈ files, s.Admitted p) (s.filesReported entries) :=
  .after _ fun top => (Gives.mapM (gives_fileReported top) entries).bind fun _ hparts =>
    gives_pure (admitted_flatten hparts)

theorem gives_candidates (requested : List Path) :
    Gives h (fun files => ∀ p ∈ files, s.Admitted p) (s.candidates requested) := by
  unfold candidates
  split
  · exact gives_walkFiles _
  · exact gives_explicitFiles _
  · exact .after _ gives_filesReported
  · exact .after _ gives_filesReported
  · exact .after _ gives_filesReported
  · exact .after _ fun _ => .after _ gives_filesReported

/-- What is chosen has been admitted, and is never nothing. -/
theorem gives_admitted (requested : List Path) :
    Gives h (fun chosen => ∀ files, chosen = some files →
        files ≠ [] ∧ Path.Ascending files ∧ ∀ p ∈ files, s.Admitted p) (s.select requested) := by
  have hrest : Gives h (fun chosen => ∀ files, chosen = some files →
      files ≠ [] ∧ Path.Ascending files ∧ ∀ p ∈ files, s.Admitted p) (do
        debug (σ := σ) ("Selecting " ++ s.mode.describe)
        let files := Path.sortedSet (← s.candidates requested)
        if files ≠ [] then return some files
        else if s.mode.usesGit then return none
        else fail (.selection (.allExcluded s.mode))) := by
    refine .after _ fun _ => (gives_candidates requested).bind fun found hfound => ?_
    dsimp only
    split
    · next hne =>
      refine gives_pure ?_
      rintro files ⟨⟩
      exact ⟨hne, Path.ascending_sortedSet fun p hp => (hfound p hp).eligible.relative,
        fun p hp => hfound p (Path.mem_sortedSet.1 hp)⟩
    · exact (gives_pure (by simp)).ite (gives_fail _)
  exact .ite (.after _ fun _ => hrest) hrest

theorem gives_select (requested : List Path) :
    Gives h (fun chosen => ∀ files, chosen = some files → s.Chosen files) (s.select requested) := by
  intro w chosen hchosen files hfiles
  obtain ⟨-, hascending, hadmitted⟩ := gives_admitted requested w chosen hchosen files hfiles
  exact ⟨hascending, fun p hp => (hadmitted p hp).eligible⟩

theorem chosen_of_select {w w' : World σ} {requested files : List Path}
    (hselect : (s.select requested).go h w = (.ok (some files), w')) : s.Chosen files :=
  gives_select requested w (some files) (by rw [hselect]) files rfl

end Selector

end LintRunner
