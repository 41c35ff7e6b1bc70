import LintRunner.Proofs.Filter.Invocation
import LintRunner.Proofs.Run.Fails

/-! A filter refuses a target for its kind, a file where directories are expected or the other way round,
in one place only: where the scope is checked, in the tree that it finds the target in. -/

namespace LintRunner

open World Run

variable {σ : Type} {h : Host σ} {w : World σ} {e : Failure}

/-- A target was refused for its kind. -/
def Failure.isKind : Failure → Bool
  | .filter (.directoriesOnly _ _) => true
  | .filter (.filesOnly _ _) => true
  | _ => false

/-- A command that is run, and looking at files before and after it, can fail in these ways only. -/
structure Failure.OfTarget (E : Failure → Prop) : Prop where
  os : ∀ e, E (.os e)
  exec : ∀ e, E (.exec e)
  crash : ∀ c, E (.crash c)
  vanished : ∀ p, E (.filter (.vanished p))

theorem Failure.ofTarget_isKind : Failure.OfTarget (·.isKind = false) where
  os _ := rfl
  exec _ := rfl
  crash _ := rfl
  vanished _ := rfl

section OfTarget

variable {E : Failure → Prop}

theorem Failure.OfTarget.refusal (hE : Failure.OfTarget E) (p : Path) (r : Refusal) :
    E (.ofRefusal p r) := by
  cases r with
  | errno e => exact hE.os _
  | nul => exact hE.crash _

theorem Failure.OfTarget.start (hE : Failure.OfTarget E) (e : StartError) : E (.ofStart e) := by
  cases e with
  | os e => exact hE.os _
  | unfit => exact hE.crash _

namespace Exec

theorem fails_logEnd (r : Request) (c : Completed) : Fails h E (logEnd r c) := by
  have hdebug (message : String) : Fails h E (debug message) := (yields_debug message).fails
  unfold logEnd
  split
  · exact hdebug _
  · refine (hdebug _).bind fun _ => Fails.ite ?_ (fails_pure _)
    exact ((hdebug _).bind fun _ => (hdebug _).ite (fails_pure _)).ite ((hdebug _).ite (fails_pure _))

theorem fails_run (hE : Failure.OfTarget E) (r : Request) : Fails h E (run r) := by
  refine fails_host.bind fun _ => fails_tree.bind fun _ => fails_here.bind fun _ => ?_
  split
  · exact fails_fail (hE.exec _)
  · refine fails_cwd.bind fun _ => (fails_resolve hE.crash).bind fun cwd => ?_
    refine (yields_debug _).fails.bind fun _ => Fails.bind ?_ fun c => ?_
    · refine fails_host.bind fun _ => fails_world.bind fun _ => ?_
      refine (fails_change _).bind fun _ => (fails_change _).bind fun _ => ?_
      exact fails_ofExcept fun e _ => hE.start e
    · exact (fails_logEnd r c).bind fun _ => fails_ofExcept fun _ _ => hE.exec _

end Exec

namespace Snapshot

variable (hE : Failure.OfTarget E)

include hE

theorem fails_isFile? (p : Path) : Fails h E (isFile? p) := fails_askTree (hE.refusal p)

theorem fails_membersOf (directory : Path) : Fails h E (membersOf directory) := by
  refine fails_tree.bind fun _ => fails_here.bind fun _ => ?_
  split
  · exact fails_tree.bind fun _ => fails_pure _
  · exact fails_fail (hE.os _)
  · exact fails_fail (hE.refusal _ _)

theorem fails_isWanted (root : Path) (wanted : Path → Bool) (member : Path) :
    Fails h E (isWanted root wanted member) := by
  refine (fails_isFile? hE member).bind fun _ => Fails.ite ?_ (fails_pure _)
  refine Fails.bind ?_ fun _ => fails_pure _
  unfold below
  split
  · exact fails_pure _
  · exact fails_fail (hE.crash _)

theorem fails_capture (root target : Path) (wanted : Path → Bool) :
    Fails h E (capture root target wanted) := by
  refine (fails_isFile? hE _).bind fun _ => Fails.ite ?_ ?_
  · exact (fails_askTree (hE.refusal _)).bind fun _ => fails_pure _
  · refine (fails_askTree (hE.refusal _)).bind fun _ => Fails.ite ?_ (fails_fail (hE.vanished _))
    refine (fails_membersOf hE _).bind fun _ =>
      (Fails.filterM (fails_isWanted hE root wanted) _).bind fun _ => ?_
    refine Fails.bind (Fails.mapM (fun _ => ?_) _) fun _ => fails_pure _
    exact (fails_askTree (hE.refusal _)).bind fun _ => fails_pure _

theorem fails_differs (p : Path) (before : ByteArray) : Fails h E (differs p before) := by
  refine (yields_debug _).fails.bind fun _ => fails_tree.bind fun _ => fails_here.bind fun _ => ?_
  split
  · exact fails_pure _
  · exact fails_pure _
  · exact (fails_pure _).ite (fails_fail (hE.os _))
  · exact fails_fail (hE.crash _)

theorem fails_changed (s : Snapshot) (wanted : Path → Bool) : Fails h E (s.changed wanted) := by
  refine (Fails.anyM (fun _ => fails_differs hE _ _) _).bind fun _ => (fails_pure _).ite ?_
  split
  · exact fails_pure _
  · refine (fails_askTree (hE.refusal _)).bind fun _ => Fails.ite ?_ (fails_pure _)
    refine (fails_membersOf hE _).bind fun _ => Fails.anyM (fun _ => ?_) _
    exact (fails_pure _).ite (fails_isWanted hE _ _ _)

end Snapshot

end OfTarget

namespace Filter

variable {f : Filter} {a : Action} {p : Path} {files : List Path} {scope : Scope}

theorem of_workingDirFor_error {e : FilterError} (he : f.workingDirFor p scope = .error e) :
    ∃ roots, e = .noSubRoot f.name p roots := by
  unfold workingDirFor at he
  split at he
  · cases he
  · cases he
  · cases he
  · split at he
    · cases he
    · cases he
      exact ⟨_, rfl⟩

theorem of_renderPaths_error {directory : Path} {e : FilterError}
    (he : f.renderPaths p files scope directory = .error e) :
    ∃ item, e = .outsideDirectory item directory := by
  unfold renderPaths at he
  split at he
  · cases he
  · cases he
  · split at he
    · cases he
    · obtain ⟨-, item, -, -, -, hitem⟩ := of_mapM_error he
      unfold relativeText at hitem
      split at hitem
      · cases hitem
      · cases hitem
        exact ⟨item, rfl⟩

/-- What stands in the way of a request is where its target lies, or that there is no command. -/
inductive Unrequested (f : Filter) (p : Path) : Failure → Prop
  | noSubRoot (roots : List Path) : Unrequested f p (.filter (.noSubRoot f.name p roots))
  | outside (item directory : Path) : Unrequested f p (.filter (.outsideDirectory item directory))
  | empty : Unrequested f p (.crash .emptyCommand)

theorem unrequested_of_requestFor (he : f.requestFor a p files scope = .error e) :
    f.Unrequested p e := by
  unfold requestFor at he
  cases hd : f.workingDirFor p scope with
  | error e' =>
    obtain ⟨roots, rfl⟩ := of_workingDirFor_error hd
    rw [hd] at he
    cases he
    exact .noSubRoot roots
  | ok directory =>
    rw [hd] at he
    cases hr : f.renderPaths p files scope directory with
    | error e' =>
      obtain ⟨item, rfl⟩ := of_renderPaths_error hr
      simp only [hr, mapError_ok, mapError_error, bind, Except.bind] at he
      cases he
      exact .outside item directory
    | ok paths =>
      simp only [hr, mapError_ok, bind, Except.bind] at he
      split at he <;> cases he
      exact .empty

theorem isKind_of_requestFor (he : f.requestFor a p files scope = .error e) : e.isKind = false := by
  cases unrequested_of_requestFor he <;> rfl

theorem fails_start {E : Failure → Prop} (hE : Failure.OfTarget E)
    (hrequest : ∀ e, f.requestFor a p files scope = .error e → E e) :
    Fails h E (f.start a p files scope) := by
  refine (fails_ofExcept fun _ he => hrequest _ he).bind fun r => ?_
  exact (yields_info _).fails.bind fun _ => Exec.fails_run hE r

/-- The target is refused for its kind, which is what the tree says of it. -/
inductive Refuses (f : Filter) (t : FileTree) (here : Location) (p : Path) : Scope → Failure → Prop
  | file (hfile : t.isFile? here (f.root / p) = .ok true) :
      Refuses f t here p .dirs (.filter (.directoriesOnly f.name p))
  | directory (hdirectory : t.isDirectory? here (f.root / p) = .ok true) :
      Refuses f t here p .files (.filter (.filesOnly f.name p))

theorem of_check {ask : FileTree → Location → Path → Except Refusal Bool} {q : Path} {refusal : Failure}
    (he : ((do if ← askTree ask q then fail refusal : Run σ Unit).go h w).1 = .error e)
    (hkind : e.isKind = true) : e = refusal ∧ ask w.tree h.cwd q = .ok true := by
  rcases go_bind_cases (askTree ask q) (fun b => if b = true then fail refusal else pure ()) h w with
    ⟨e', w', hask, hgo⟩ | ⟨b, w', hask, hgo⟩
  · rw [hgo] at he
    cases he
    have hfails : Fails h (·.isKind = false) (askTree ask q) :=
      fails_askTree (Failure.ofTarget_isKind.refusal q)
    rw [hfails w e (by rw [hask])] at hkind
    cases hkind
  · obtain ⟨-, hb⟩ := of_go_askTree_ok hask
    rw [hgo] at he
    cases b with
    | false => cases he
    | true =>
      cases he
      exact ⟨rfl, hb⟩

theorem refuses_of_checkScope (he : ((f.checkScope p scope).go h w).1 = .error e)
    (hkind : e.isKind = true) : f.Refuses w.tree h.cwd p scope e := by
  cases scope with
  | root => cases he
  | dirs =>
    obtain ⟨rfl, hfile⟩ := of_check he hkind
    exact .file hfile
  | files =>
    obtain ⟨rfl, hdirectory⟩ := of_check he hkind
    exact .directory hdirectory

/-- What lints and tidies alike: whatever comes after the check of the scope refuses no target for its
kind. -/
theorem refuses_of_checked {β : Type} {k : Run σ (Option β)} (hk : Fails h (·.isKind = false) k)
    (he : ((do
      f.requireKind a
      f.checkScope p scope
      if ← f.applies p files scope then k else return none : Run σ (Option β)).go h w).1 = .error e)
    (hkind : e.isKind = true) : f.Refuses w.tree h.cwd p scope e := by
  have hrest : Fails h (·.isKind = false) (do
      if ← f.applies p files scope then k else return none : Run σ (Option β)) :=
    (f.yields_applies p files scope).fails.bind fun _ => hk.ite (fails_pure _)
  cases hserves : f.kind.serves a with
  | false =>
    have hfail : (f.requireKind a).go h w = (.error (.filter (.wrongKind a f.name f.kind)), w) := by
      simp [requireKind, hserves]
    rw [go_bind_error hfail] at he
    cases he
    cases hkind
  | true =>
    have hpass : (f.requireKind a).go h w = (.ok (), w) := by simp [requireKind, hserves]
    rw [go_bind_ok hpass] at he
    rcases go_bind_cases (f.checkScope p scope) _ h w with ⟨e', w₁, hx, hgo⟩ | ⟨_, w₁, hx, hgo⟩
    · rw [hgo] at he
      cases he
      exact refuses_of_checkScope (by rw [hx]) hkind
    · rw [hgo] at he
      rw [hrest w₁ e he] at hkind
      cases hkind

theorem fails_started : Fails h (·.isKind = false) (f.start a p files scope) :=
  fails_start Failure.ofTarget_isKind fun _ he => isKind_of_requestFor he

theorem refuses_of_lint (he : ((f.lint p files scope).go h w).1 = .error e) (hkind : e.isKind = true) :
    f.Refuses w.tree h.cwd p scope e :=
  refuses_of_checked (fails_started.bind fun _ => fails_pure _) he hkind

theorem refuses_of_tidy (he : ((f.tidy p files scope).go h w).1 = .error e) (hkind : e.isKind = true) :
    f.Refuses w.tree h.cwd p scope e := by
  refine refuses_of_checked (Fails.ite ?_ ?_) he hkind
  · exact fails_started.bind fun _ => fails_pure _
  · refine (Snapshot.fails_capture Failure.ofTarget_isKind _ _ _).bind fun before =>
      fails_started.bind fun _ => ?_
    exact (Snapshot.fails_changed Failure.ofTarget_isKind _ _).bind fun _ => fails_pure _

end Filter

end LintRunner
