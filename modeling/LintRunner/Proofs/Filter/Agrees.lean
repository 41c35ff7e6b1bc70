import LintRunner.Proofs.Filter.Invocation
import LintRunner.Proofs.Selection.Agrees

/-! Running a filter from two directories: what a target holds is looked up from the top, the command is
started where the filter says, and so is whatever it is started on. -/

namespace LintRunner

open World Run

variable {σ : Type} {h : Host σ} {c d : Location}

namespace Snapshot

variable {root target member directory : Path} (wanted : Path → Bool)

/-- The directory looked at, if any, and what was found are named from the top. -/
structure FromTop (s : Snapshot) : Prop where
  directory : ∀ directory, s.directory = some directory → directory.isAbsolute = true
  contents : ∀ e ∈ s.contents, e.1.isAbsolute = true

theorem agrees_below (root member : Path) :
    Agrees h c d (fun _ => True) (below (σ := σ) root member) (below root member) := by
  unfold below
  split
  · exact agrees_pure trivial
  · exact agrees_fail _

theorem agrees_membersOf (hdirectory : directory.isAbsolute = true) :
    Agrees h c d (fun members => ∀ m ∈ members, m.isAbsolute = true)
      (membersOf (σ := σ) directory) (membersOf directory) := by
  refine agrees_tree.bind fun t _ => Agrees.here ?_
  rw [FileTree.status_of_isAbsolute (c := c) (d := d) hdirectory t]
  split
  · refine agrees_tree.bind fun t _ => agrees_pure fun m hm => ?_
    obtain ⟨e, -, rfl⟩ := List.mem_map.1 hm
    exact Path.isAbsolute_child hdirectory e.1
  · exact agrees_fail _
  · exact agrees_fail _

theorem agrees_isWanted (hmember : member.isAbsolute = true) :
    Agrees h c d (fun _ => True) (isWanted (σ := σ) root wanted member)
      (isWanted root wanted member) := by
  refine (agrees_isFile? hmember).bind fun b _ => .ite (fun _ => ?_) fun _ => agrees_pure trivial
  exact (agrees_below _ _).bind fun _ _ => agrees_pure trivial

theorem agrees_capture (hroot : root.isAbsolute = true) (target : Path) :
    Agrees h c d FromTop (capture (σ := σ) root target wanted) (capture root target wanted) := by
  have hfull : (root / target).isAbsolute = true := Path.isAbsolute_join hroot target
  refine (agrees_isFile? hfull).bind fun file? _ => .ite (fun _ => ?_) fun _ => ?_
  · refine (agrees_bytesAt hfull).bind fun bytes _ => agrees_pure ⟨by simp, ?_⟩
    rintro e he
    rw [List.mem_singleton.1 he]
    exact hfull
  · refine (agrees_isDirectory? hfull).bind fun directory? _ => .ite (fun _ => ?_)
      fun _ => agrees_fail _
    refine (agrees_membersOf hfull).bind fun members hmembers => ?_
    have hmember : ∀ m ∈ Path.sorted members, m.isAbsolute = true :=
      fun m hm => hmembers m (Path.mem_sorted.1 hm)
    refine (Agrees.filterM fun m hm => agrees_isWanted wanted (hmember m hm)).bind fun kept hkept => ?_
    refine (Agrees.mapM (Q := fun e => e.1.isAbsolute = true) fun m hm => ?_).bind
      fun contents hcontents => agrees_pure ⟨?_, hcontents⟩
    · exact (agrees_bytesAt (hmember m (hkept m hm))).bind fun _ _ =>
        agrees_pure (hmember m (hkept m hm))
    · rintro _ ⟨⟩
      exact hfull

theorem agrees_differs {p : Path} (hp : p.isAbsolute = true) (before : ByteArray) :
    Agrees h c d (fun _ => True) (differs (σ := σ) p before) (differs p before) := by
  refine (agrees_debug _).bind fun _ _ => agrees_tree.bind fun t _ => Agrees.here ?_
  rw [FileTree.status_of_isAbsolute (c := c) (d := d) hp t]
  split
  · exact agrees_pure trivial
  · exact agrees_pure trivial
  · exact .ite (fun _ => agrees_pure trivial) fun _ => agrees_fail _
  · exact agrees_fail _

theorem agrees_changed {s : Snapshot} (hs : s.FromTop) :
    Agrees h c d (fun _ => True) (s.changed (σ := σ) wanted) (s.changed wanted) := by
  refine (Agrees.anyM fun e he => agrees_differs (hs.contents e he) e.2).bind fun any _ =>
    .ite (fun _ => agrees_pure trivial) fun _ => ?_
  split
  · exact agrees_pure trivial
  · next directory hdirectory =>
    have habsolute := hs.directory directory hdirectory
    refine (agrees_isDirectory? habsolute).bind fun directory? _ => .ite (fun _ => ?_)
      fun _ => agrees_pure trivial
    refine (agrees_membersOf habsolute).bind fun members hmembers => Agrees.anyM fun m hm => ?_
    exact .ite (fun _ => agrees_pure trivial) fun _ => agrees_isWanted wanted (hmembers m hm)

end Snapshot

namespace Filter

/-- The filter's command is looked for along paths that start from the top, whatever it is given. -/
def FindsCommand (f : Filter) (h : Host σ) : Prop :=
  ∀ a p files scope r, f.requestFor a p files scope = .ok r → r.FromTop h

/-- It is enough to know the program. -/
theorem findsCommand_of_cmd {f : Filter} {exe : String} {args : List String} (hcmd : f.cmd = exe :: args)
    (hfound : ∀ raw ∈ Exec.candidates exe (Exec.searchPath (Exec.overlay h.env f.params.env)),
      raw.startsWith "/" = true) : f.FindsCommand h := by
  intro a p files scope r hr
  unfold requestFor at hr
  obtain ⟨directory, -, hr⟩ := of_bind_ok hr
  obtain ⟨paths, -, hr⟩ := of_bind_ok hr
  rw [commandLine, hcmd] at hr
  cases hr
  exact hfound

structure FromTop (f : Filter) (h : Host σ) : Prop where
  root : f.root.isAbsolute = true
  finds : f.FindsCommand h

variable {f : Filter} (hf : f.FromTop h)

theorem isAbsolute_of_workingDirFor {p q : Path} {scope : Scope} (hroot : f.root.isAbsolute = true)
    (hq : f.workingDirFor p scope = .ok q) : q.isAbsolute = true := by
  unfold workingDirFor at hq
  split at hq
  · cases hq
    exact hroot
  · cases hq
    exact Path.isAbsolute_join hroot _
  · cases hq
    exact Path.isAbsolute_join hroot _
  · split at hq
    · cases hq
      exact Path.isAbsolute_join hroot _
    · cases hq

include hf

theorem agrees_start (a : Action) (p : Path) (files : List Path) (scope : Scope) :
    Agrees h c d (fun _ => True) (f.start a p files scope) (f.start a p files scope) := by
  have hrequest : Agrees h c d (fun r => f.requestFor a p files scope = .ok r)
      (ofExcept (σ := σ) id (f.requestFor a p files scope))
      (ofExcept id (f.requestFor a p files scope)) := agrees_ofExcept fun _ hr => hr
  refine hrequest.bind fun r hr => (agrees_log _ _).bind fun _ _ => ?_
  obtain ⟨directory, -, hworking, -, -, hdir⟩ := requestFor_ok hr
  exact Exec.agrees_run (hf.finds a p files scope r hr) hdir
    (isAbsolute_of_workingDirFor hf.root hworking)

theorem agrees_checkScope (p : Path) (scope : Scope) :
    Agrees h c d (fun _ => True) (f.checkScope (σ := σ) p scope) (f.checkScope p scope) := by
  have hfull : (f.root / p).isAbsolute = true := Path.isAbsolute_join hf.root p
  unfold checkScope
  split
  · exact (agrees_isFile? hfull).bind fun _ _ => .ite (fun _ => agrees_fail _)
      fun _ => agrees_pure trivial
  · exact (agrees_isDirectory? hfull).bind fun _ _ => .ite (fun _ => agrees_fail _)
      fun _ => agrees_pure trivial
  · exact agrees_pure trivial

omit hf in
theorem agrees_applies (p : Path) (files : List Path) (scope : Scope) :
    Agrees h c d (fun _ => True) (f.applies (σ := σ) p files scope) (f.applies p files scope) := by
  have hnoted (message : String) (b : Bool) : Agrees (σ := σ) h c d (fun _ => True)
      (do debug message; return b) (do debug message; return b) :=
    (agrees_debug _).bind fun _ _ => agrees_pure trivial
  unfold applies
  split
  · exact .ite (fun _ => hnoted _ _) fun _ => agrees_pure trivial
  · refine .ite (fun _ => hnoted _ _) fun _ => .ite (fun _ => agrees_pure trivial) fun _ => ?_
    split
    · exact hnoted _ _
    · exact hnoted _ _

omit hf in
theorem agrees_requireKind (a : Action) :
    Agrees h c d (fun _ => True) (f.requireKind (σ := σ) a) (f.requireKind a) :=
  .ite (fun _ => agrees_pure trivial) fun _ => agrees_fail _

theorem agrees_lint (p : Path) (files : List Path) (scope : Scope) :
    Agrees h c d (fun _ => True) (f.lint (σ := σ) p files scope) (f.lint p files scope) := by
  refine (agrees_requireKind _).bind fun _ _ => (agrees_checkScope hf p scope).bind fun _ _ => ?_
  refine (agrees_applies p files scope).bind fun applies _ => .ite (fun _ => ?_)
    fun _ => agrees_pure trivial
  exact (agrees_start hf _ p files scope).bind fun _ _ => agrees_pure trivial

theorem agrees_tidy (p : Path) (files : List Path) (scope : Scope) :
    Agrees h c d (fun _ => True) (f.tidy (σ := σ) p files scope) (f.tidy p files scope) := by
  refine (agrees_requireKind _).bind fun _ _ => (agrees_checkScope hf p scope).bind fun _ _ => ?_
  refine (agrees_applies p files scope).bind fun applies _ => .ite (fun _ => ?_)
    fun _ => agrees_pure trivial
  refine .ite (fun _ => ?_) fun _ => ?_
  · exact (agrees_start hf _ p files scope).bind fun _ _ => agrees_pure trivial
  · refine (Snapshot.agrees_capture f.covers hf.root p).bind fun before hbefore => ?_
    refine (agrees_start hf _ p files scope).bind fun _ _ => ?_
    exact (Snapshot.agrees_changed f.covers hbefore).bind fun _ _ => agrees_pure trivial

end Filter

end LintRunner
