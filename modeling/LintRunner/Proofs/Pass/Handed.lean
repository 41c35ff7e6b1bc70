import LintRunner.Proofs.Pass.Attempts
import LintRunner.Proofs.Pass.Targets

/-! Which files reach the commands of a filter that names files. None that is excluded does, by the
project or by the filter, and none twice; and those that the filter is for do, unless it leaves their
directory out or their target fails before anything is started. -/

namespace LintRunner

open World Run Pass

variable {σ : Type} {h : Host σ} {w : World σ} {a : Action} {f : Filter} {scope : Filter.Scope}
  {files : List Path}

namespace Attempt

/-- What has been handed to a command: the items, if one was started. -/
def handed (h : Host σ) (a : Action) (x : Attempt σ) : List Path :=
  if x.starts h a = [] then [] else x.items

variable {x : Attempt σ}

theorem perm_items (hstyle : f.params.pathArgs.namesFiles = true)
    (hx : x ∈ attempts h a f scope w (Target.pathMap scope files (Group.make files)))
    (htakes : x.filter.takes x.target.path x.target.files x.scope = true) :
    x.items.Perm (x.target.files.filter f.covers) := by
  obtain ⟨hf, hs, ht⟩ := of_mem_attempts h a f scope hx
  rw [hf, hs] at htakes
  rw [items, hf, hs]
  apply Filter.perm_itemsFor hstyle ht
  intro hfiles
  rw [hfiles] at htakes
  exact htakes

/-- Nothing is started for a target, or its command is, with the files that the filter is for. -/
theorem handed_cases (hstyle : f.params.pathArgs.namesFiles = true)
    (hx : x ∈ attempts h a f scope w (Target.pathMap scope files (Group.make files))) :
    (x.starts h a = [] ∧ x.handed h a = []) ∨
      ∃ s, x.starts h a = [s] ∧ f.Hands h a x.begun x.items s ∧ x.handed h a = x.items ∧
        x.items.Perm (x.target.files.filter f.covers) := by
  obtain ⟨hf, -, -⟩ := of_mem_attempts h a f scope hx
  rcases x.starts_cases h a with ⟨-, -, hs⟩ | ⟨e, -, -, hs⟩ | ⟨r, s, htakes, hr, hrs, -, hs⟩
  · exact .inl ⟨hs, if_pos hs⟩
  · exact .inl ⟨hs, if_pos hs⟩
  · right
    have hhands := Filter.hands_of_starts (hf ▸ hstyle) hr hrs
    rw [hf] at hhands
    refine ⟨s, hs, ?_, by simp [handed, hs], perm_items hstyle hx htakes⟩
    rwa [items, hf]

/-- What is handed over belongs to the target, and the filter is for it. -/
theorem of_mem_handed (hstyle : f.params.pathArgs.namesFiles = true)
    (hx : x ∈ attempts h a f scope w (Target.pathMap scope files (Group.make files))) {p : Path}
    (hp : p ∈ x.handed h a) : p ∈ x.target.files ∧ f.covers p = true := by
  rcases handed_cases hstyle hx with ⟨-, hnone⟩ | ⟨s, -, -, hitems, hperm⟩
  · rw [hnone] at hp
    cases hp
  · rw [hitems] at hp
    exact List.mem_filter.1 (hperm.mem_iff.1 hp)

end Attempt

theorem nodup_handed (hstyle : f.params.pathArgs.namesFiles = true) (hfiles : Path.Ascending files)
    (hrel : ∀ p ∈ files, p.anchor = .relative) :
    ((attempts h a f scope w (Target.pathMap scope files (Group.make files))).flatMap
      (·.handed h a)).Nodup := by
  have htargets := Target.nodup_flatMap_files scope hfiles hrel
  rw [← targets_attempts h a f scope w (Target.pathMap scope files (Group.make files)),
    List.flatMap_map] at htargets
  obtain ⟨hnodup, hdisjoint⟩ := List.nodup_flatMap.1 htargets
  refine List.nodup_flatMap.2 ⟨?_, ?_⟩
  · intro x hx
    rcases Attempt.handed_cases hstyle hx with ⟨-, hnone⟩ | ⟨s, -, -, hitems, hperm⟩
    · rw [hnone]
      exact List.nodup_nil
    · rw [hitems]
      exact hperm.nodup_iff.2 ((hnodup x hx).filter _)
  · apply hdisjoint.imp_of_mem
    intro x y hx hy hxy
    apply List.disjoint_left.2
    intro p hpx hpy
    exact List.disjoint_left.1 hxy (Attempt.of_mem_handed hstyle hx hpx).1
      (Attempt.of_mem_handed hstyle hy hpy).1

/-- A filter's turn over `files`, where `excluder` is what the project leaves out: each command that
is started has just the items for its path arguments, and they may all be handed over. -/
structure Vetted (h : Host σ) (a : Action) (excluder : Matcher) (files : List Path) (x : Round σ) :
    Prop where
  commands : ∀ t ∈ x.attempts h a, t.starts h a = [] ∨
    ∃ s, t.starts h a = [s] ∧ x.filter.Hands h a t.begun (t.handed h a) s
  chosen : ∀ t ∈ x.attempts h a, ∀ p ∈ t.handed h a, p ∈ files
  kept : ∀ t ∈ x.attempts h a, ∀ p ∈ t.handed h a, excluder.covers p false = false
  wanted : ∀ t ∈ x.attempts h a, ∀ p ∈ t.handed h a,
    x.filter.excluder.covers p false = false ∧ x.filter.includer.covers p false = true
  once : ((x.attempts h a).flatMap (·.handed h a)).Nodup

theorem vetted_of_chosen {s : Selector} {x : Round σ} (hchosen : s.Chosen x.files)
    (hstyle : x.filter.params.pathArgs.namesFiles = true) :
    Vetted h a s.excluder x.files x := by
  have hrel : ∀ p ∈ x.files, p.anchor = .relative := fun p hp => (hchosen.eligible p hp).relative
  have hmem : ∀ t ∈ x.attempts h a, ∀ p ∈ t.handed h a, p ∈ x.files ∧ x.filter.covers p = true := by
    intro t ht p hp
    obtain ⟨htarget, hcovers⟩ := Attempt.of_mem_handed hstyle ht hp
    exact ⟨Target.files_subset (of_mem_attempts h a x.filter x.scope ht).2.2 htarget, hcovers⟩
  refine ⟨?_, ?_, ?_, ?_, nodup_handed hstyle hchosen.ascending hrel⟩
  · intro t ht
    rcases Attempt.handed_cases hstyle ht with ⟨hs, -⟩ | ⟨s, hs, hhands, hitems, -⟩
    · exact .inl hs
    · exact .inr ⟨s, hs, by rwa [hitems]⟩
  · intro t ht p hp
    exact (hmem t ht p hp).1
  · intro t ht p hp
    exact (hchosen.eligible p (hmem t ht p hp).1).kept
  · intro t ht p hp
    simpa [Filter.covers] using (hmem t ht p hp).2

/-- No pass, however it goes, hands a file to a command that the project or the filter excludes, that
the filter does not include or that was not chosen; nor does a filter hand over a file twice. -/
theorem run_vetted (p : Pass) (l : Config.Loaded) (r : Reporter) (workers : Int) (cwd : Path)
    (h : Host σ) (w : World σ) :
    (∃ before k after, ((p.run l r workers cwd).go h w).2.starts = w.starts ++ before ++
        ((p.turns l r workers cwd h w).take k).flatMap (·.starts h p.action) ++ after ∧
      ∀ s ∈ before ++ after, h.StartsGit s) ∧
    ∀ x ∈ p.turns l r workers cwd h w, ∃ fs s files w₁,
      (p.opening l r cwd).go h w = (.ok (fs, s, some files), w₁) ∧
      p.filters l = .ok fs ∧ x.filter ∈ fs ∧
      Matcher.compile s.root (l.project.excludes ++ vcsDirectories) = .ok s.excluder ∧
      (x.filter.params.pathArgs.namesFiles = true → Vetted h p.action s.excluder files x) := by
  refine ⟨p.starts_run l r workers cwd h w, ?_⟩
  intro x hx
  unfold turns at hx
  split at hx
  · next fs s files w₁ hopening =>
    obtain ⟨hfs, hcompile, hchosen⟩ := opening_ok hopening
    obtain ⟨hf, hfiles⟩ := of_mem_rounds h p.action r workers files hx
    subst hfiles
    exact ⟨fs, s, x.files, w₁, hopening, hfs, hf, hcompile, vetted_of_chosen (hchosen _ rfl)⟩
  · cases hx

open Sample in
theorem run_vetted_staged :
    (pass.turns loaded {} 1 root host (world script)).map
        (fun x => (x.attempts host .lint).flatMap (·.handed host .lint)) = [[topFile, subFile], []] ∧
      ∀ x ∈ pass.turns loaded {} 1 root host (world script), ∃ excluder files,
        Vetted host .lint excluder files x := by
  have hstyle : ∀ x ∈ pass.turns loaded {} 1 root host (world script),
      x.filter.params.pathArgs.namesFiles = true := List.all_eq_true.1 (by decide +kernel)
  refine ⟨by decide +kernel, ?_⟩
  intro x hx
  obtain ⟨-, s, files, -, -, -, -, -, hvetted⟩ :=
    (run_vetted pass loaded {} 1 root host (world script)).2 x hx
  exact ⟨s.excluder, files, hvetted (hstyle x hx)⟩

end LintRunner
