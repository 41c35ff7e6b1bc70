import LintRunner.Proofs.Pass.Coverage

/-! How many path arguments a command is started with that takes files: one for each file of its target
that the filter is for. There is none only where a directory is taken for its own sake, because the
filter includes it, although the filter is for none of the files selected there. -/

namespace LintRunner

open World Run Pass

variable {σ : Type} {h : Host σ} {w : World σ} {a : Action} {f : Filter} {scope : Filter.Scope}
  {files : List Path} {t : Target}

namespace Filter

variable (f) in
/-- A directory that the filter includes, with none of the files that the filter is for. -/
structure Barren (t : Target) : Prop where
  included : f.includer.covers t.path true = true
  unwanted : ∀ p ∈ t.files, f.covers p = false

theorem filter_covers_eq_nil_iff (ht : t ∈ Target.pathMap scope files (Group.make files))
    (htakes : f.takes t.path t.files scope = true) :
    t.files.filter f.covers = [] ↔ scope = .dirs ∧ f.Barren t := by
  rw [List.filter_eq_nil_iff]
  constructor
  · intro hnone
    have hunwanted : ∀ p ∈ t.files, f.covers p = false := fun p hp => by simpa using hnone p hp
    have hany : t.files.any f.covers = false := List.any_eq_false.2 hnone
    cases scope with
    | files =>
      obtain ⟨p, -, rfl⟩ := List.mem_map.1 ht
      have hcovers : f.covers p = true := htakes
      rw [hunwanted p (by simp [Target.ofFile])] at hcovers
      cases hcovers
    | dirs =>
      have hincluded : f.includer.covers t.path true = true := by
        simp only [takes, hany, Bool.or_false, Bool.and_eq_true] at htakes
        exact htakes.2
      exact ⟨rfl, hincluded, hunwanted⟩
    | root =>
      rw [List.mem_singleton.1 ht] at htakes hany
      simp [takes, hany, Matcher.covers_here] at htakes
  · rintro ⟨-, -, hunwanted⟩ p hp
    simp [hunwanted p hp]

end Filter

/-- The command that a filter which takes files is started with for a target has a path argument for
each of the target's files that the filter is for; it has none at all in just one case. -/
theorem started_bare_iff {s : Spawn} (hstyle : f.params.pathArgs.namesFiles = true)
    (ht : t ∈ Target.pathMap scope files (Group.make files))
    (hs : (⟨f, scope, t, w⟩ : Attempt σ).starts h a = [s]) :
    ∃ directory args, f.Line h a w directory args s ∧
      List.Forall₂ (f.Names directory) (f.itemsFor t.path t.files scope) args ∧
      (f.itemsFor t.path t.files scope).Perm (t.files.filter f.covers) ∧
      (args = [] ↔ scope = .dirs ∧ f.Barren t) := by
  rcases (⟨f, scope, t, w⟩ : Attempt σ).starts_cases h a with
    ⟨-, -, hnone⟩ | ⟨e, -, -, hnone⟩ | ⟨r, s', htakes, hr, hstarts, -, hs'⟩
  · rw [hnone] at hs
    cases hs
  · rw [hnone] at hs
    cases hs
  · obtain rfl : s' = s := by simpa using hs'.symm.trans hs
    obtain ⟨directory, args, hline, hnames⟩ := Filter.hands_of_starts hstyle hr hstarts
    have hperm : (f.itemsFor t.path t.files scope).Perm (t.files.filter f.covers) := by
      apply Filter.perm_itemsFor hstyle ht
      intro hfiles
      subst hfiles
      exact htakes
    refine ⟨directory, args, hline, hnames, hperm, ?_⟩
    have hlength : args.length = (t.files.filter f.covers).length :=
      hnames.length_eq.symm.trans hperm.length_eq
    rw [← Filter.filter_covers_eq_nil_iff ht htakes, ← List.length_eq_zero_iff,
      ← List.length_eq_zero_iff, hlength]

open Sample in
theorem started_bare_iff_sub : ∃ f s directory args,
    Config.Loaded.buildFilter root "check" (command .lint "tool" []) = .ok f ∧
    f.params.pathArgs.namesFiles = true ∧
    ⟨subFile.parent, [subFile]⟩ ∈ Target.pathMap .dirs [topFile, subFile] (Group.make [topFile, subFile]) ∧
    (⟨f, .dirs, ⟨subFile.parent, [subFile]⟩, world {}⟩ : Attempt Script).starts host .lint = [s] ∧
    f.Line host .lint (world {}) directory args s ∧ args ≠ [] := by
  have hready : (Config.Loaded.buildFilter root "check" (command .lint "tool" [])).toOption.any (fun f =>
      decide (f.params.pathArgs.namesFiles = true ∧ f.covers subFile = true ∧
        ((⟨f, .dirs, ⟨subFile.parent, [subFile]⟩, world {}⟩ : Attempt Script).starts
          host .lint).length = 1)) = true := by decide +kernel
  have ht : (⟨subFile.parent, [subFile]⟩ : Target) ∈
      Target.pathMap .dirs [topFile, subFile] (Group.make [topFile, subFile]) := by decide
  obtain ⟨f, hf, hready⟩ := of_any_toOption hready
  obtain ⟨hstyle, hcovers, hone⟩ := of_decide_eq_true hready
  obtain ⟨s, hs⟩ := List.length_eq_one_iff.1 hone
  obtain ⟨directory, args, hline, -, -, hbare⟩ := started_bare_iff hstyle ht hs
  refine ⟨f, s, directory, args, hf, hstyle, ht, hs, hline, fun hnil => ?_⟩
  have hunwanted := (hbare.1 hnil).2.unwanted subFile (by simp)
  rw [hcovers] at hunwanted
  cases hunwanted

/-- Files that are all left out of a directory that is included. -/
def Sample.barren : Config.Command :=
  { command .lint "tool" ["*.py"] with includes := ["sub/"], invoke := some (.fixed .dirs) }

open Sample in
/-- A command that takes files can be started without any, also in the scope that the filter itself
settles on. -/
theorem exists_started_bare : ¬ ∀ (c : Config.Command) (f : Filter) (files : List Path) (t : Target)
    (h : Host Script) (a : Action) (w : World Script) (s : Spawn),
    Config.Loaded.buildFilter root "check" c = .ok f → f.params.pathArgs.namesFiles = true →
    t ∈ Target.pathMap (f.scopeOf files) files (Group.make files) →
    (⟨f, f.scopeOf files, t, w⟩ : Attempt Script).starts h a = [s] →
    ∃ directory args, f.Line h a w directory args s ∧ args ≠ [] := by
  intro hall
  have hready : (Config.Loaded.buildFilter root "check" barren).toOption.any (fun f =>
      decide (f.params.pathArgs.namesFiles = true ∧
        ⟨subFile.parent, [subFile]⟩ ∈ Target.pathMap (f.scopeOf [subFile]) [subFile]
          (Group.make [subFile]) ∧
        ((⟨f, f.scopeOf [subFile], ⟨subFile.parent, [subFile]⟩, world {}⟩ : Attempt Script).starts
          host .lint).map (·.argv) = [["/bin/tool"]] ∧
        f.cmd ++ f.flagsFor .lint = ["tool"])) = true := by decide +kernel
  obtain ⟨f, hf, hready⟩ := of_any_toOption hready
  obtain ⟨hstyle, ht, hargv, hcmd⟩ := of_decide_eq_true hready
  obtain ⟨s, hs, hsolo⟩ := List.map_eq_singleton_iff.1 hargv
  obtain ⟨directory, args, hline, hne⟩ :=
    hall barren f [subFile] ⟨subFile.parent, [subFile]⟩ host .lint (world {}) s hf hstyle ht hs
  obtain ⟨exe, name, rest, hwords, hrest⟩ := hline.argv
  obtain ⟨-, rfl⟩ : "/bin/tool" = exe ∧ [] = rest := by simpa [hsolo] using hrest
  obtain ⟨arg, others, rfl⟩ := List.exists_cons_of_ne_nil hne
  simp [Filter.commandLine, hcmd, f.flagged_ne_nil] at hwords

end LintRunner
