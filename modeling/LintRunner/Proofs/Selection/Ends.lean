import LintRunner.Proofs.Pass.Early
import LintRunner.Proofs.Selection.Directory

/-! How a choice of files ends. Whatever the source of the files, they come in order, each once, by names
that lead down from the project and that it does not exclude. That there are none is an answer where git
was asked, and a failure where it was not. -/

namespace LintRunner

open Run

variable {σ : Type} {h : Host σ} {w w' w₀ w₁ : World σ}

def Failure.isAllExcluded : Failure → Bool
  | .selection (.allExcluded _) => true
  | _ => false

theorem Failure.exists_of_isAllExcluded {e : Failure} (he : e.isAllExcluded = true) :
    ∃ m, e = .selection (.allExcluded m) := by
  unfold isAllExcluded at he
  split at he
  · next m => exact ⟨m, rfl⟩
  · cases he

theorem Failure.ofTarget_isAllExcluded : OfTarget (·.isAllExcluded = false) where
  os _ := rfl
  exec _ := rfl
  crash _ := rfl
  vanished _ := rfl

namespace Selector

variable {s : Selector} {p q : Path} {requested files : List Path}

/-- Files as a choice gives them. -/
structure InOrder (s : Selector) (files : List Path) : Prop where
  nonempty : files ≠ []
  ascending : Path.Ascending files
  relative : ∀ p ∈ files, p.anchor = .relative
  not_up : ∀ p ∈ files, ".." ∉ p.parts
  kept : ∀ p ∈ files, s.excluder.covers p false = false

/-- Names in the project never lead up. -/
theorem not_up_of_relativeToRoot? (hcwd : s.cwd.isAbsolute = true) (hp : s.relativeToRoot? q = .ok p) :
    ".." ∉ p.parts := by
  have hdots := Path.normalize_no_dots (Path.isAbsolute_join hcwd q)
  unfold relativeToRoot? at hp
  split at hp
  · next below hbelow =>
    cases hp
    rw [(Path.relativeTo?_eq_some_iff_down.1 hbelow).2, Path.down_parts, List.mem_append, not_or] at hdots
    exact hdots.2
  · cases hp

theorem inOrder_of_select (hcwd : s.cwd.isAbsolute = true)
    (hselect : (s.select requested).go h w = (.ok (some files), w')) : s.InOrder files := by
  obtain ⟨hne, hascending, hadmitted⟩ := gives_admitted requested w (some files) (by rw [hselect]) files rfl
  refine ⟨hne, hascending, fun p hp => (hadmitted p hp).eligible.relative, fun p hp => ?_,
    fun p hp => (hadmitted p hp).kept⟩
  obtain ⟨q, hq⟩ := (hadmitted p hp).named
  exact not_up_of_relativeToRoot? hcwd hq

/-- Where git is not asked, there is no such answer as nothing. -/
theorem gives_select_of_not_git (hgit : s.mode.usesGit = false) :
    Gives h (· ≠ none) (s.select requested) := by
  have hrest : Gives h (· ≠ none) (do
      debug (σ := σ) ("Selecting " ++ s.mode.describe)
      let files := Path.sortedSet (← s.candidates requested)
      if files ≠ [] then return some files
      else if s.mode.usesGit then return none
      else fail (.selection (.allExcluded s.mode))) := by
    refine .after _ fun _ => .after _ fun found => .ite (gives_pure (by simp)) ?_
    rw [hgit]
    exact gives_fail _
  exact .ite (.after _ fun _ => hrest) hrest

/-- Where git is asked, it is no failure that nothing is left. -/
theorem fails_select_of_git (hgit : s.mode.usesGit = true) :
    Fails h (·.isAllExcluded = false) (s.select requested) := by
  have hrest : Fails h (·.isAllExcluded = false) (do
      debug ("Selecting " ++ s.mode.describe)
      let files := Path.sortedSet (← s.candidates requested)
      if files ≠ [] then return some files
      else if s.mode.usesGit then return none
      else fail (.selection (.allExcluded s.mode))) := by
    refine (yields_debug _).fails.bind fun _ => Fails.bind ?_ fun found => (fails_pure _).ite ?_
    · exact s.fails_candidates requested Failure.ofTarget_isAllExcluded (fun _ => rfl) hgit
    · rw [hgit]
      exact fails_pure _
  exact Fails.ite (Fails.bind (fails_fail rfl) fun _ => hrest) hrest

theorem go_select_of_not_wanted (hne : requested ≠ []) (hmode : s.mode ≠ .paths) :
    (s.select requested).go h w = (.error (.selection (.pathsNotWanted s.mode)), w) := by
  rw [select, if_pos ⟨hne, hmode⟩]
  rfl

/-- Files in order, or nothing if git was asked, or a failure; and that all have been excluded is one only
if git was not. Paths that are not wanted are refused before anything else happens. -/
theorem select_ends {mode : Selection.Mode} {root : Path} {cwd : Option Path} {exclude : List String}
    {git : Option Git} (hstart : (start mode root cwd exclude git).go h w₀ = (.ok s, w₁))
    (requested : List Path) (w : World σ) :
    (∀ files w', (s.select requested).go h w = (.ok (some files), w') → s.InOrder files) ∧
    (∀ w', (s.select requested).go h w = (.ok none, w') → mode.usesGit = true) ∧
    (∀ m w', (s.select requested).go h w = (.error (.selection (.allExcluded m)), w') →
      mode.usesGit = false) ∧
    (requested ≠ [] → mode ≠ .paths →
      (s.select requested).go h w = (.error (.selection (.pathsNotWanted mode)), w)) := by
  obtain ⟨rfl, -, hcwd, -, -⟩ := of_start_ok hstart
  have habsolute := Path.isAbsolute_of_anchor (FileTree.of_resolve_ok hcwd).1
  refine ⟨fun files w' => inOrder_of_select habsolute, fun w' hnone => ?_, fun m w' hall => ?_,
    go_select_of_not_wanted⟩
  · by_contra hgit
    exact gives_select_of_not_git (by simpa using hgit) w none (by rw [hnone]) rfl
  · by_contra hgit
    have hno := fails_select_of_git (by simpa using hgit) w _ (by rw [hall])
    cases hno

end Selector

namespace Sample

def repositoryHost : Host Script := Script.host ["p"] [] false true

/-- A repository in which git has nothing to report. -/
def repositoryWorld : World Script := ⟨shelf, { git := [
  { args := ["rev-parse", "--show-toplevel"], outcome := .ok "/p\n" }] }, [], {}, .warning⟩

end Sample

namespace Selector

open Sample

/-- Two names for one file, of which the second leads up and down again. -/
theorem chosen_shelf : (start .paths shelfRoot none ["!b.py"] none).comesTo shelfHost shelfWorld
    (fun s w₁ => (s.select [⟨.relative, ["d"]⟩, ⟨.relative, ["d", "..", "d", "a.py"]⟩]).comesTo
      shelfHost w₁ fun chosen _ => decide (chosen = some [⟨.relative, ["d", "a.py"]⟩])) = true := by
  decide +kernel

theorem nothing_shelf : (start .modified shelfRoot none [] none).comesTo repositoryHost repositoryWorld
    (fun s w₁ => (s.select []).comesTo repositoryHost w₁ fun chosen _ => chosen.isNone) = true := by
  decide +kernel

theorem allExcluded_shelf : (start .all shelfRoot none ["*"] none).comesTo shelfHost shelfWorld
    (fun s w₁ => match (s.select []).go shelfHost w₁ with
      | (.error e, _) => e.isAllExcluded
      | (.ok _, _) => false) = true := by
  decide +kernel

/-- One choice for each way to end. -/
theorem select_ends_shelf :
    (∃ s w₁ w' files, (start .paths shelfRoot none ["!b.py"] none).go shelfHost shelfWorld = (.ok s, w₁) ∧
      (s.select [⟨.relative, ["d"]⟩, ⟨.relative, ["d", "..", "d", "a.py"]⟩]).go shelfHost w₁ =
        (.ok (some files), w') ∧ s.InOrder files ∧ files = [⟨.relative, ["d", "a.py"]⟩]) ∧
    (∃ s w₁ w', (start .modified shelfRoot none [] none).go repositoryHost repositoryWorld = (.ok s, w₁) ∧
      (s.select []).go repositoryHost w₁ = (.ok none, w') ∧ Selection.Mode.modified.usesGit = true) ∧
    (∃ s w₁ m w', (start .all shelfRoot none ["*"] none).go shelfHost shelfWorld = (.ok s, w₁) ∧
      (s.select []).go shelfHost w₁ = (.error (.selection (.allExcluded m)), w') ∧
      Selection.Mode.all.usesGit = false ∧ [shelfRoot] ≠ [] ∧ Selection.Mode.all ≠ .paths ∧
      (s.select [shelfRoot]).go shelfHost w₁ = (.error (.selection (.pathsNotWanted .all)), w₁)) := by
  refine ⟨?_, ?_, ?_⟩
  · obtain ⟨s, w₁, hstart, hruled⟩ := of_comesTo chosen_shelf
    obtain ⟨chosen, w', hselect, hruled⟩ := of_comesTo hruled
    obtain rfl := of_decide_eq_true hruled
    exact ⟨s, w₁, w', _, hstart, hselect, (select_ends hstart _ w₁).1 _ _ hselect, rfl⟩
  · obtain ⟨s, w₁, hstart, hruled⟩ := of_comesTo nothing_shelf
    obtain ⟨chosen, w', hselect, hruled⟩ := of_comesTo hruled
    obtain rfl := Option.isNone_iff_eq_none.1 hruled
    exact ⟨s, w₁, w', hstart, hselect, (select_ends hstart _ w₁).2.1 _ hselect⟩
  · obtain ⟨s, w₁, hstart, hruled⟩ := of_comesTo allExcluded_shelf
    split at hruled
    · next e w' hselect =>
      obtain ⟨m, rfl⟩ := Failure.exists_of_isAllExcluded hruled
      obtain ⟨-, -, hgit, -⟩ := select_ends hstart [] w₁
      have hrefused := (select_ends hstart [shelfRoot] w₁).2.2.2 (by simp) (by decide)
      exact ⟨s, w₁, m, w', hstart, hselect, hgit _ _ hselect, by simp, by decide, hrefused⟩
    · cases hruled

end Selector

end LintRunner
