import LintRunner.Proofs.FileTree.Lookup
import LintRunner.Proofs.Pass.Handed
import LintRunner.Proofs.Path.Below

/-! Which of the files that a filter is for reach its command. A directory that the filter leaves out
keeps its files back in directory scope, also those that a later pattern takes in again. -/

namespace LintRunner

open World Run Pass

variable {σ : Type} {h : Host σ} {w : World σ} {a : Action} {f : Filter} {scope : Filter.Scope}
  {files : List Path} {t : Target} {p : Path}

theorem Matcher.covers_here (m : Matcher) (isDirectory : Bool) : m.covers .here isDirectory = false := by
  simp [Matcher.covers, Matcher.candidate?, Path.here, Path.isAbsolute]

namespace Filter

/-- Only in directory scope does a filter pass over a target that holds a file it is for. -/
theorem takes_of_covers (ht : t ∈ Target.pathMap scope files (Group.make files)) (hp : p ∈ t.files)
    (hcovers : f.covers p = true) : f.takes t.path t.files scope = true ∨
      scope = .dirs ∧ f.excluder.covers p.parent true = true := by
  have hpath := Target.path_eq_pathOf ht hp
  have hany : t.files.any f.covers = true := List.any_eq_true.2 ⟨p, hp, hcovers⟩
  cases scope with
  | root =>
    left
    simp [takes, hpath, Target.pathOf, Matcher.covers_here, hany]
  | dirs =>
    cases hx : f.excluder.covers p.parent true with
    | true => exact .inr ⟨rfl, rfl⟩
    | false =>
      left
      simp [takes, hpath, Target.pathOf, hx, hany]
  | files =>
    left
    rw [hpath]
    exact hcovers

/-- Nothing is wrong with the scope of a target whose files are there. -/
theorem checkScope_ok (ht : t ∈ Target.pathMap scope files (Group.make files)) (hp : p ∈ t.files)
    (hrel : p.anchor = .relative) (hparts : p.parts ≠ [])
    (hfile : w.tree.isFile? h.cwd (f.root / p) = .ok true) :
    ((f.checkScope t.path scope).go h w).1 = .ok () := by
  have hpath := Target.path_eq_pathOf ht hp
  have hask (ask : FileTree → Location → Path → Except Refusal Bool) (q : Path)
      (hno : ask w.tree h.cwd q = .ok false) : (askTree ask q).go h w = (.ok false, w) := by
    rw [askTree, go_bind_ok (go_tree h w), go_bind_ok (go_here h w), hno]
    rfl
  cases scope with
  | root => rfl
  | dirs =>
    have hsome : (f.root / p).parts ≠ [] := by simp [Path.join_of_relative hrel, hparts]
    have hno : w.tree.isFile? h.cwd (f.root / t.path) = .ok false := by
      rw [hpath, Target.pathOf, ← Path.parent_join hrel hparts]
      exact FileTree.isFile?_parent hsome hfile
    rw [checkScope, isFile?, go_bind_ok (hask _ _ hno)]
    rfl
  | files =>
    have hno : w.tree.isDirectory? h.cwd (f.root / t.path) = .ok false := by
      rw [hpath]
      exact FileTree.isDirectory?_of_isFile? hfile
    rw [checkScope, isDirectory?, go_bind_ok (hask _ _ hno)]
    rfl

/-- A file that is there can be remembered. -/
theorem capture_ok (wanted : Path → Bool) {root : Path}
    (hfile : w.tree.isFile? h.cwd (root / p) = .ok true) :
    ∃ s, ((Snapshot.capture root p wanted).go h w).1 = .ok s := by
  obtain ⟨l, bytes, executable, hs⟩ := FileTree.isFile?_eq_true_iff.1 hfile
  have hasked : (isFile? (root / p)).go h w = (.ok true, w) := by
    rw [isFile?, askTree, go_bind_ok (go_tree h w), go_bind_ok (go_here h w), hfile]
    rfl
  have hbytes : (bytesAt (root / p)).go h w = (.ok bytes, w) := by
    rw [bytesAt, askTree, go_bind_ok (go_tree h w), go_bind_ok (go_here h w), FileTree.bytesAt, hs]
    rfl
  rw [Snapshot.capture, go_bind_ok hasked, if_pos rfl, go_bind_ok hbytes]
  exact ⟨_, rfl⟩

end Filter

/-- What can come between a target and its command: one of its files is no regular file any more, a
tidier cannot read its directory, or there is no program or no way to where it runs. -/
inductive Attempt.Disturbed (h : Host σ) (a : Action) (x : Attempt σ) : Prop
  | gone {p : Path} (hp : p ∈ x.target.files)
      (hgone : x.begun.tree.isFile? h.cwd (x.filter.root / p) ≠ .ok true)
  | unreadable {e : Failure} {w : World σ} (ha : a = .tidy) (hs : x.scope = .dirs)
      (ht : w.tree = x.begun.tree)
      (he : ((Snapshot.capture x.filter.root x.target.path x.filter.covers).go h w).1 = .error e)
  | stuck {r : Exec.Request}
      (hr : x.filter.requestFor a x.target.path x.target.files x.scope = .ok r)
      (hs : r.Stuck h x.begun)

namespace Attempt

variable {x : Attempt σ}

/-- A filter that names files, runs in the project and serves the action is only ever disturbed. -/
theorem disturbed_of_blocked (hserves : f.kind.serves a = true)
    (hstyle : f.params.pathArgs.namesFiles = true) (hdir : f.params.workingDir = .root)
    (hfiles : ∀ p ∈ files, p.anchor = .relative ∧ p.parts ≠ [])
    (hx : x ∈ attempts h a f scope w (Target.pathMap scope files (Group.make files)))
    (hp : p ∈ x.target.files) (hcovers : f.covers p = true)
    (hblocked : x.filter.Blocked h a x.target.path x.target.files x.scope x.begun) :
    x.Disturbed h a := by
  obtain ⟨hf, hs, ht⟩ := of_mem_attempts h a f scope hx
  by_cases hthere : x.begun.tree.isFile? h.cwd (f.root / p) = .ok true
  · obtain ⟨hrel, hparts⟩ := hfiles p (Target.files_subset ht hp)
    cases hblocked with
    | kind hk =>
      rw [hf, hserves] at hk
      cases hk
    | @scope e w' hw he =>
      have hok := Filter.checkScope_ok (w := w') ht hp hrel hparts (by rwa [hw])
      rw [hf, hs, hok] at he
      cases he
    | @unreadable e w' ha hroot hw he =>
      rw [hs] at hroot
      cases scope with
      | root => exact absurd rfl hroot
      | dirs => exact .unreadable ha hs hw he
      | files =>
        have hpath : x.target.path = p := Target.path_eq_pathOf ht hp
        obtain ⟨before, hok⟩ := Filter.capture_ok (w := w') f.covers (by rwa [hw])
        rw [hf, hpath, hok] at he
        cases he
    | @request e he =>
      have hperm := Filter.perm_itemsFor hstyle ht fun hscope => by
        rw [Target.path_eq_pathOf ht hp, hscope]
        exact hcovers
      obtain ⟨r, hr⟩ := Filter.exists_requestFor (a := a) hstyle hdir
        (fun item hi => (hfiles item (Target.files_subset ht
          (List.mem_filter.1 (hperm.mem_iff.1 hi)).1)).1)
        (List.ne_nil_of_mem (hperm.mem_iff.2 (List.mem_filter.2 ⟨hp, hcovers⟩)))
      rw [hf, hs, hr] at he
      cases he
    | @stuck r hr hstuck => exact .stuck hr hstuck
  · exact .gone hp (by rwa [hf])

end Attempt

/-- Every file that the filter is for is handed to a command in its turn. -/
def AllHanded (h : Host σ) (a : Action) (f : Filter) (scope : Filter.Scope) (files : List Path)
    (w : World σ) : Prop :=
  ∀ p ∈ files, f.covers p = true →
    ∃ x ∈ attempts h a f scope w (Target.pathMap scope files (Group.make files)), p ∈ x.handed h a

/-- The command came to its end with one of `codes`, if the event is the start of one. -/
def Event.exitsWith (codes : List Int) : Event → Bool
  | .spawned _ (.ok ⟨.exited code, _, _⟩) => codes.contains code
  | .spawned _ _ => false
  | _ => true

/-- The filter names files from the project and serves the action, the files are distinct and there,
and every command of its turn exits as it should. -/
structure Smooth (h : Host σ) (a : Action) (f : Filter) (scope : Filter.Scope) (files : List Path)
    (w : World σ) : Prop where
  serves : f.kind.serves a = true
  namesFiles : f.params.pathArgs.namesFiles = true
  inRoot : f.params.workingDir = .root
  nodup : files.Nodup
  regular : ∀ p ∈ files, w.tree.isFile? h.cwd (f.root / p) = .ok true
  exits : ∀ e ∈ (leftBy h a f scope w (Target.pathMap scope files (Group.make files))).events.drop
    w.events.length, e.exitsWith f.acceptedCodes = true

instance (h : Host σ) (a : Action) (f : Filter) (scope : Filter.Scope) (files : List Path)
    (w : World σ) : Decidable (AllHanded h a f scope files w) :=
  inferInstanceAs (Decidable (∀ p ∈ files, f.covers p = true →
    ∃ x ∈ attempts h a f scope w (Target.pathMap scope files (Group.make files)), p ∈ x.handed h a))

instance (h : Host σ) (a : Action) (f : Filter) (scope : Filter.Scope) (files : List Path)
    (w : World σ) : Decidable (Smooth h a f scope files w) :=
  decidable_of_iff (f.kind.serves a = true ∧ f.params.pathArgs.namesFiles = true ∧
      f.params.workingDir = .root ∧ files.Nodup ∧
      (∀ p ∈ files, w.tree.isFile? h.cwd (f.root / p) = .ok true) ∧
      ∀ e ∈ (leftBy h a f scope w (Target.pathMap scope files (Group.make files))).events.drop
        w.events.length, e.exitsWith f.acceptedCodes = true)
    ⟨fun ⟨h₁, h₂, h₃, h₄, h₅, h₆⟩ => ⟨h₁, h₂, h₃, h₄, h₅, h₆⟩,
      fun hs => ⟨hs.serves, hs.namesFiles, hs.inRoot, hs.nodup, hs.regular, hs.exits⟩⟩

open Sample in
/-- Not every such file is: the filter may leave out the directory of one that it takes in by name,
and a tidier may remove a file before its turn has come. -/
theorem smooth_not_allHanded :
    (¬ ∀ (h : Host Script) (a : Action) (f : Filter) (files : List Path) (w : World Script),
      Smooth h a f .dirs files w → AllHanded h a f .dirs files w) ∧
    ¬ ∀ (h : Host Script) (a : Action) (f : Filter) (files : List Path) (w : World Script),
      Smooth h a f .files files w → AllHanded h a f .files files w := by
  have hdirs : (match Config.Loaded.buildFilter root "check"
        (command .lint "tool" ["sub/", "!sub/b.py"]) with
      | .ok f => decide (Smooth host .lint f .dirs [topFile, subFile] (world {}) ∧
          ¬ AllHanded host .lint f .dirs [topFile, subFile] (world {}))
      | .error _ => false) = true := by decide +kernel
  have hfiles : (match Config.Loaded.buildFilter root "format" (command .tidy "tool" []) with
      | .ok f =>
        decide (Smooth host .tidy f .files [topFile, subFile]
            (world { processes := [{ effects := { removals := [subFile] } }] }) ∧
          ¬ AllHanded host .tidy f .files [topFile, subFile]
            (world { processes := [{ effects := { removals := [subFile] } }] }))
      | .error _ => false) = true := by decide +kernel
  constructor
  · intro hall
    split at hdirs
    · next f _ =>
      obtain ⟨hsmooth, hnot⟩ := of_decide_eq_true hdirs
      exact hnot (hall _ _ f _ _ hsmooth)
    · cases hdirs
  · intro hall
    split at hfiles
    · next f _ =>
      obtain ⟨hsmooth, hnot⟩ := of_decide_eq_true hfiles
      exact hnot (hall _ _ f _ _ hsmooth)
    · cases hfiles

/-- What becomes of a file that the filter is for, by the attempt at its target. -/
inductive Attempt.Fate (h : Host σ) (a : Action) (x : Attempt σ) (p : Path) : Prop
  | handed {s : Spawn} (hp : p ∈ x.handed h a) (hs : x.starts h a = [s])
      (hhands : x.filter.Hands h a x.begun (x.handed h a) s)
  | leftOut (hscope : x.scope = .dirs) (hout : x.filter.excluder.covers p.parent true = true)
      (hend : x.ending h a = .ok none)
  | failed {e : Failure} (hend : x.ending h a = .error e) (hs : x.starts h a = [])
      (hdisturbed : x.Disturbed h a)

/-- The files that the filter is for, and no others, are handed to its commands, each with its target;
but for those whose directory is a target that the filter leaves out, and those whose target is
disturbed and ends in an error before anything is started. -/
theorem handed_or_left_out (hserves : f.kind.serves a = true)
    (hstyle : f.params.pathArgs.namesFiles = true) (hdir : f.params.workingDir = .root)
    (hfiles : ∀ p ∈ files, p.anchor = .relative ∧ p.parts ≠ []) :
    (∀ p ∈ files, f.covers p = true →
      ∃ x ∈ attempts h a f scope w (Target.pathMap scope files (Group.make files)),
        p ∈ x.target.files ∧ x.Fate h a p) ∧
    ∀ x ∈ attempts h a f scope w (Target.pathMap scope files (Group.make files)),
      ∀ p ∈ x.handed h a, p ∈ files ∧ f.covers p = true := by
  constructor
  · intro p hp hcovers
    obtain ⟨t, ht, hpt, -⟩ := Target.exists_target scope hp
    obtain ⟨x, hx, rfl⟩ := exists_attempt h a f scope (w := w) ht
    refine ⟨x, hx, hpt, ?_⟩
    obtain ⟨hf, hs, -⟩ := of_mem_attempts h a f scope hx
    rcases x.starts_cases h a with
      ⟨hend, htakes, hnone⟩ | ⟨e, hend, hblocked, hnone⟩ | ⟨r, s, -, -, -, -, hsome⟩
    · rw [hf, hs] at htakes
      rcases Filter.takes_of_covers ht hpt hcovers with htrue | ⟨hdirs, hout⟩
      · rw [htakes] at htrue
        cases htrue
      · exact .leftOut (hs.trans hdirs) (by rwa [hf]) hend
    · exact .failed hend hnone
        (Attempt.disturbed_of_blocked hserves hstyle hdir hfiles hx hpt hcovers hblocked)
    · rcases Attempt.handed_cases hstyle hx with ⟨hnone, -⟩ | ⟨s', hs', hhands, hitems, hperm⟩
      · rw [hnone] at hsome
        cases hsome
      · refine .handed ?_ hs' (by rwa [hf, hitems])
        rw [hitems]
        exact hperm.mem_iff.2 (List.mem_filter.2 ⟨hpt, hcovers⟩)
  · intro x hx p hp
    obtain ⟨htarget, hcovers⟩ := Attempt.of_mem_handed hstyle hx hp
    exact ⟨Target.files_subset (of_mem_attempts h a f scope hx).2.2 htarget, hcovers⟩

open Sample in
theorem handed_or_left_out_sample : ∃ f,
    Config.Loaded.buildFilter root "check" (command .lint "tool" ["sub/", "!sub/b.py"]) = .ok f ∧
    f.kind.serves .lint = true ∧ f.params.pathArgs.namesFiles = true ∧ f.params.workingDir = .root ∧
    (∀ p ∈ [topFile, subFile], p.anchor = .relative ∧ p.parts ≠ []) ∧ f.covers subFile = true ∧
    ∃ x ∈ attempts host .lint f .files (world {}) (Target.pathMap .files [topFile, subFile]
        (Group.make [topFile, subFile])), subFile ∈ x.target.files ∧ x.Fate host .lint subFile := by
  have hready : (match Config.Loaded.buildFilter root "check"
        (command .lint "tool" ["sub/", "!sub/b.py"]) with
      | .ok f => decide (f.kind.serves .lint = true ∧ f.params.pathArgs.namesFiles = true ∧
          f.params.workingDir = .root ∧ f.covers subFile = true)
      | .error _ => false) = true := by decide +kernel
  have hfiles : ∀ p ∈ [topFile, subFile], p.anchor = .relative ∧ p.parts ≠ [] := by decide
  split at hready
  · next f hf =>
    obtain ⟨hserves, hstyle, hdir, hcovers⟩ := of_decide_eq_true hready
    exact ⟨f, hf, hserves, hstyle, hdir, hfiles, hcovers,
      (handed_or_left_out hserves hstyle hdir hfiles).1 subFile (by decide) hcovers⟩
  · cases hready

end LintRunner
