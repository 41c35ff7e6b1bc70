import LintRunner.Proofs.Pass.Apart
import Mathlib.Algebra.GroupWithZero.Nat
import Mathlib.Data.List.Sort

/-! The targets of a filter, shared out among workers. A `Pool` takes one step of one target at a time, in
any order, and the results in any order once they are there. With a worker it can always go on to its end.
Where the targets keep out of each other's way, each comes in it to where it would have come alone. -/

namespace LintRunner

open Run World Pass FileTree

variable {σ : Type} {h : Host σ} {a : Action} {x : Round σ} {w w' : World σ} {tree tree' : FileTree}
  {l : Location} {s : Stage} {t u : Target} {workers : Nat}

/-- A target that has been handed in, and how far it has come. -/
structure Job where
  target : Target
  stage : Stage

structure Pool (σ : Type) where
  world : World σ
  jobs : List Job
  /-- The results that have been taken, in the order in which they came. -/
  taken : List (Target × Except Failure (Option Result))

/-- What happens next: a step of a job, or the result of one is taken. -/
inductive Move where
  | step (i : Nat)
  | take (i : Nat)
deriving DecidableEq, Repr

namespace Stage

def isWaiting : Stage → Bool
  | waiting => true
  | _ => false

/-- A worker is busy with it. -/
def isActive : Stage → Bool
  | ready _ => true
  | ran _ => true
  | _ => false

end Stage

namespace Pool

section Definitions

variable (h : Host σ) (a : Action) (f : Filter) (scope : Filter.Scope) (workers : Nat)

def active (p : Pool σ) : Nat := p.jobs.countP (·.stage.isActive)

/-- What a move leads to. One that cannot be made leaves all as it is: there must be a worker for a target
that waits, and a result that is taken. -/
def move (p : Pool σ) : Move → Pool σ
  | .step i =>
    match p.jobs[i]? with
    | none => p
    | some j =>
      if j.stage.isWaiting ∧ workers ≤ p.active then p
      else
        let c := Stage.after h a f scope j.target (j.stage, p.world)
        { p with world := c.2, jobs := p.jobs.set i ⟨j.target, c.1⟩ }
  | .take i =>
    match p.jobs[i]? with
    | some ⟨t, .ended r⟩ => { p with jobs := p.jobs.eraseIdx i, taken := p.taken ++ [(t, r)] }
    | _ => p

def follow (p : Pool σ) (schedule : List Move) : Pool σ := schedule.foldl (move h a f scope workers) p

/-- All targets are handed in. -/
def opened (w : World σ) (targets : List Target) : Pool σ := ⟨w, targets.map (⟨·, .waiting⟩), []⟩

end Definitions

variable {f : Filter} {scope : Filter.Scope} {p : Pool σ} {i : Nat} {j : Job}

theorem split_at (hj : p.jobs[i]? = some j) :
    i < p.jobs.length ∧ p.jobs = p.jobs.take i ++ j :: p.jobs.drop (i + 1) := by
  obtain ⟨hi, rfl⟩ := List.getElem?_eq_some_iff.1 hj
  exact ⟨hi, by rw [← List.drop_eq_getElem_cons hi, List.take_append_drop]⟩

/-- The moves that the pool can still be from its end. -/
def ahead (p : Pool σ) : Nat := (p.jobs.map (·.stage.steps + 1)).sum

theorem ahead_step (hj : p.jobs[i]? = some j) (hfree : ¬ (j.stage.isWaiting = true ∧ workers ≤ p.active))
    (hs : ∀ r, j.stage ≠ .ended r) : (p.move h a f scope workers (.step i)).ahead < p.ahead := by
  obtain ⟨hi, hjobs⟩ := split_at hj
  have hless : (Stage.after h a f scope j.target (j.stage, p.world)).1.steps < j.stage.steps :=
    Stage.steps_after hs p.world
  rw [move, hj]
  dsimp only
  rw [if_neg hfree, ahead, ahead, List.set_eq_take_append_cons_drop, if_pos hi]
  nth_rewrite 3 [hjobs]
  simp only [List.map_append, List.map_cons, List.sum_append, List.sum_cons]
  omega

theorem ahead_take {r : Except Failure (Option Result)} (hj : p.jobs[i]? = some ⟨t, .ended r⟩) :
    (p.move h a f scope workers (.take i)).ahead < p.ahead := by
  obtain ⟨hi, hjobs⟩ := split_at hj
  rw [move, hj]
  dsimp only
  rw [ahead, ahead, List.eraseIdx_eq_take_drop_succ]
  nth_rewrite 3 [hjobs]
  simp only [List.map_append, List.map_cons, List.sum_append, List.sum_cons]
  omega

/-- As long as there is a worker, nothing that has been handed in can be stuck. -/
theorem exists_move (hworkers : 0 < workers) (hjobs : p.jobs ≠ []) :
    ∃ m, (p.move h a f scope workers m).ahead < p.ahead := by
  by_cases hidle : ∀ j ∈ p.jobs, j.stage = .waiting
  · obtain ⟨j, rest, hj⟩ := List.exists_cons_of_ne_nil hjobs
    have hfirst : j.stage = .waiting := hidle j (by simp [hj])
    have hactive : p.active = 0 := List.countP_eq_zero.2 fun j hj => by simp [hidle j hj, Stage.isActive]
    exact ⟨.step 0, ahead_step (by rw [hj]; rfl) (by omega) (by simp [hfirst])⟩
  · push Not at hidle
    obtain ⟨⟨t, s⟩, hmem, hbusy⟩ := hidle
    obtain ⟨i, hi⟩ := List.mem_iff_getElem?.1 hmem
    cases s with
    | waiting => exact absurd rfl hbusy
    | ready before => exact ⟨.step i, ahead_step hi (by simp [Stage.isWaiting]) (by simp)⟩
    | ran before => exact ⟨.step i, ahead_step hi (by simp [Stage.isWaiting]) (by simp)⟩
    | ended r => exact ⟨.take i, ahead_take hi⟩

/-- However far a pool has come, there are moves that bring it to its end. -/
theorem exists_finish (hworkers : 0 < workers) (p : Pool σ) :
    ∃ later, (p.follow h a f scope workers later).jobs = [] := by
  induction hahead : p.ahead using Nat.strong_induction_on generalizing p with
  | h n ih =>
    by_cases hjobs : p.jobs = []
    · exact ⟨[], hjobs⟩
    · obtain ⟨m, hm⟩ := exists_move (h := h) (a := a) (f := f) hworkers hjobs
      obtain ⟨later, hlater⟩ := ih _ (hahead ▸ hm) (p.move h a f scope workers m) rfl
      exact ⟨m :: later, hlater⟩

theorem follow_append (p : Pool σ) (schedule later : List Move) :
    p.follow h a f scope workers (schedule ++ later) =
      (p.follow h a f scope workers schedule).follow h a f scope workers later := List.foldl_append

end Pool

namespace Round

variable (h : Host σ) (a : Action) (x : Round σ)

/-- The pool of a round after so many moves. -/
def pool (workers : Nat) (schedule : List Move) : Pool σ :=
  (Pool.opened x.begun x.targets).follow h a x.filter x.scope workers schedule

/-- Taken up at the beginning of the round, the target by itself comes to this stage, with the same in
this tree wherever it looks. -/
def AsAlone (t : Target) (s : Stage) (tree : FileTree) : Prop :=
  ∃ n w, (Stage.after h a x.filter x.scope t)^[n] (.waiting, x.begun) = (s, w) ∧ x.Near h w.tree ∧
    x.Reached h t s ∧ x.SameFor h a t tree w.tree

/-- What holds of the pool after every move. -/
structure Coherent (p : Pool σ) : Prop where
  near : x.Near h p.world.tree
  printed : p.world.printed = x.begun.printed
  perm : (p.jobs.map (·.target) ++ p.taken.map (·.1)).Perm x.targets
  jobs : ∀ j ∈ p.jobs, x.AsAlone h a j.target j.stage p.world.tree
  taken : ∀ e ∈ p.taken, x.AsAlone h a e.1 (.ended e.2) p.world.tree

variable {h a x}

theorem AsAlone.mono (halone : x.AsAlone h a t s tree) (hsame : x.SameFor h a t tree' tree) :
    x.AsAlone h a t s tree' := by
  obtain ⟨n, w, hn, hnear, hreached, hw⟩ := halone
  exact ⟨n, w, hn, hnear, hreached, fun l hl => (hsame l hl).trans (hw l hl)⟩

theorem AsAlone.after (hx : x.Independent h a) (ht : t ∈ x.targets) (hw : x.Near h w.tree)
    (halone : x.AsAlone h a t s w.tree) :
    x.AsAlone h a t (Stage.after h a x.filter x.scope t (s, w)).1
        (Stage.after h a x.filter x.scope t (s, w)).2.tree ∧
      x.Step h t w (Stage.after h a x.filter x.scope t (s, w)).2 := by
  obtain ⟨n, w', hn, hnear, hreached, hsame⟩ := halone
  obtain ⟨hstage, hreached', hsame', hleft, hright⟩ := pair_after hx ht hw hnear hsame hreached
  refine ⟨⟨n + 1, (Stage.after h a x.filter x.scope t (s, w')).2, ?_, hright.near, hreached', hsame'⟩, hleft⟩
  rw [Function.iterate_succ_apply', hn, hstage]

/-- However many steps it took, a target that has ended has come to its own end. -/
theorem AsAlone.eq_kept {r : Except Failure (Option Result)} (halone : x.AsAlone h a t (.ended r) tree) :
    let y : Attempt σ := ⟨x.filter, x.scope, t, x.begun⟩
    r = y.kept h a ∧ x.SameFor h a t tree (y.left h a).tree := by
  intro y
  obtain ⟨n, w, hn, -, -, hsame⟩ := halone
  have hthree : (Stage.after h a x.filter x.scope t)^[3] (.waiting, x.begun) =
      (.ended (y.kept h a), y.left h a) := y.iterate_after
  have hfixed : (Stage.after h a x.filter x.scope t)^[n] (.ended (y.kept h a), y.left h a) =
      (.ended (y.kept h a), y.left h a) := Stage.iterate_after_ended n _ _
  have hends : (Stage.ended (y.kept h a), y.left h a) = (Stage.ended r, w) := by
    rw [← hfixed, ← hthree, ← Function.iterate_add_apply, Nat.add_comm, Function.iterate_add_apply, hn,
      Stage.iterate_after_ended]
  cases hends
  exact ⟨rfl, hsame⟩

theorem coherent_opened (hx : x.Independent h a) : x.Coherent h a (Pool.opened x.begun x.targets) where
  near := hx.near_begun
  printed := rfl
  perm := by simp [Pool.opened, Function.comp_def]
  jobs := by
    intro j hj
    obtain ⟨t, -, rfl⟩ := List.mem_map.1 hj
    exact ⟨0, x.begun, rfl, hx.near_begun, reached_of_ne (by simp) (by simp), fun _ _ => rfl⟩
  taken := fun _ he => absurd he List.not_mem_nil

theorem Coherent.others (hx : x.Independent h a) {p : Pool σ} (hp : x.Coherent h a p) {front back : List Job}
    (hjobs : p.jobs = front ++ ⟨t, s⟩ :: back) : t ∈ x.targets ∧
      ∀ u ∈ front.map (·.target) ++ (back.map (·.target) ++ p.taken.map (·.1)), u ∈ x.targets ∧ u ≠ t := by
  have hperm := hp.perm
  rw [hjobs, List.map_append, List.map_cons, List.append_assoc, List.cons_append] at hperm
  have hnodup := List.nodup_cons.1 (List.nodup_middle.1 (hperm.nodup_iff.2 hx.nodup))
  refine ⟨hperm.subset (by simp), fun u hu => ⟨hperm.subset ?_, fun hut => hnodup.1 (hut ▸ hu)⟩⟩
  simp only [List.mem_append, List.mem_cons] at hu ⊢
  tauto

/-- A step of one target changes nothing for the others. -/
theorem Coherent.step (hx : x.Independent h a) {p : Pool σ} (hp : x.Coherent h a p) {front back : List Job}
    (hjobs : p.jobs = front ++ ⟨t, s⟩ :: back) :
    let c := Stage.after h a x.filter x.scope t (s, p.world)
    x.Coherent h a { p with world := c.2, jobs := front ++ ⟨t, c.1⟩ :: back } := by
  intro c
  obtain ⟨ht, hothers⟩ := hp.others hx hjobs
  obtain ⟨halone, hstep⟩ := (hp.jobs ⟨t, s⟩ (by simp [hjobs])).after hx ht hp.near
  have hkeeps {u : Target} {s : Stage} (hu : u ∈ x.targets ∧ u ≠ t) (halone : x.AsAlone h a u s p.world.tree) :
      x.AsAlone h a u s c.2.tree := halone.mono (hstep.sameFor hx ht hu.1 hu.2)
  refine ⟨hstep.near, hstep.printed.trans hp.printed, ?_, fun j hj => ?_, fun e he => ?_⟩
  · simpa [hjobs] using hp.perm
  · rcases List.mem_append.1 hj with hj | hj
    · exact hkeeps (hothers _ (List.mem_append_left _ (List.mem_map_of_mem hj)))
        (hp.jobs j (by simp [hjobs, hj]))
    · rcases List.mem_cons.1 hj with rfl | hj
      · exact halone
      · exact hkeeps (hothers _ (by simpa using .inr (.inl ⟨j, hj, rfl⟩))) (hp.jobs j (by simp [hjobs, hj]))
  · exact hkeeps (hothers _ (by simpa using .inr (.inr ⟨e.2, he⟩))) (hp.taken e he)

theorem Coherent.take {p : Pool σ} (hp : x.Coherent h a p) {front back : List Job}
    {r : Except Failure (Option Result)} (hjobs : p.jobs = front ++ ⟨t, .ended r⟩ :: back) :
    x.Coherent h a { p with jobs := front ++ back, taken := p.taken ++ [(t, r)] } := by
  refine ⟨hp.near, hp.printed, ?_, fun j hj => hp.jobs j ?_, fun e he => ?_⟩
  · have hperm := hp.perm
    rw [hjobs, List.map_append, List.map_cons, List.append_assoc, List.cons_append] at hperm
    refine .trans ?_ (List.perm_middle.symm.trans hperm)
    simpa using List.perm_append_singleton t (front.map (·.target) ++ (back.map (·.target) ++ p.taken.map (·.1)))
  · rw [hjobs]
    rcases List.mem_append.1 hj with hj | hj
    · simp [hj]
    · simp [hj]
  · rcases List.mem_append.1 he with he | he
    · exact hp.taken e he
    · rw [List.mem_singleton.1 he]
      exact hp.jobs ⟨t, .ended r⟩ (by simp [hjobs])

theorem Coherent.move (hx : x.Independent h a) {p : Pool σ} (hp : x.Coherent h a p) (m : Move) :
    x.Coherent h a (p.move h a x.filter x.scope workers m) := by
  cases m with
  | step i =>
    rw [Pool.move]
    split
    · exact hp
    · next j hj =>
      obtain ⟨hi, hjobs⟩ := Pool.split_at hj
      split
      · exact hp
      · dsimp only
        rw [List.set_eq_take_append_cons_drop, if_pos hi]
        exact hp.step hx hjobs
  | take i =>
    rw [Pool.move]
    split
    · next t r hj =>
      rw [List.eraseIdx_eq_take_drop_succ]
      exact hp.take (Pool.split_at hj).2
    · exact hp

theorem coherent_pool (hx : x.Independent h a) (workers : Nat) (schedule : List Move) :
    x.Coherent h a (x.pool h a workers schedule) := by
  have hfollow {p : Pool σ} (hp : x.Coherent h a p) :
      x.Coherent h a (p.follow h a x.filter x.scope workers schedule) := by
    induction schedule generalizing p with
    | nil => exact hp
    | cons m rest ih => exact ih (hp.move hx m)
  exact hfollow (coherent_opened hx)

/-- Once all results have been taken, they and the tree are settled. -/
theorem Coherent.taken_perm {p : Pool σ} (hp : x.Coherent h a p) (hall : p.jobs = []) :
    p.taken.Perm (x.targets.map fun t => (t, (⟨x.filter, x.scope, t, x.begun⟩ : Attempt σ).kept h a)) := by
  have hkept : p.taken = (p.taken.map (·.1)).map fun t =>
      (t, (⟨x.filter, x.scope, t, x.begun⟩ : Attempt σ).kept h a) := by
    rw [List.map_map]
    refine (List.map_id _).symm.trans (List.map_congr_left fun e he => ?_)
    exact Prod.ext rfl (hp.taken e he).eq_kept.1
  have hperm := hp.perm
  rw [hall] at hperm
  rw [hkept]
  exact hperm.map _

/-- Any two pools of a round that have come to their ends are the same but for the order of the results. -/
theorem Coherent.agrees {p q : Pool σ} (hp : x.Coherent h a p) (hq : x.Coherent h a q) (hall : p.jobs = [])
    (hall' : q.jobs = []) : (∀ l, p.world.tree.get? l = q.world.tree.get? l) ∧
      p.world.printed = q.world.printed ∧ p.taken.Perm q.taken := by
  have hlast {p : Pool σ} (hp : x.Coherent h a p) (hall : p.jobs = []) {t : Target}
      {l : Location} (ht : t ∈ x.targets) (hl : x.Owns h t l) : p.world.tree.get? l =
        ((⟨x.filter, x.scope, t, x.begun⟩ : Attempt σ).left h a).tree.get? l := by
    have hperm := hp.perm
    rw [hall] at hperm
    obtain ⟨e, he, rfl⟩ := List.mem_map.1 (hperm.symm.subset ht)
    exact (hp.taken e he).eq_kept.2 l hl.looksAt
  refine ⟨fun l => ?_, hp.printed.trans hq.printed.symm, (hp.taken_perm hall).trans (hq.taken_perm hall').symm⟩
  by_cases hl : ∃ t ∈ x.targets, x.Owns h t l
  · obtain ⟨t, ht, hown⟩ := hl
    rw [hlast hp hall ht hown, hlast hq hall' ht hown]
  · rw [← hp.near.alike.outside l hl, ← hq.near.alike.outside l hl]

/-- The moves that bring so many targets to their ends one after another. -/
def inTurn (n : Nat) : List Move :=
  (List.replicate n [Move.step 0, .step 0, .step 0, .take 0]).flatten

end Round

namespace Pool

variable {f : Filter} {scope : Filter.Scope}

/-- With nothing else begun, the first job can always go on. -/
theorem move_step_first (waiting : List Target) (taken : List (Target × Except Failure (Option Result))) :
    (⟨w, ⟨t, s⟩ :: waiting.map (⟨·, .waiting⟩), taken⟩ : Pool σ).move h a f scope 1 (.step 0) =
      ⟨(Stage.after h a f scope t (s, w)).2,
        ⟨t, (Stage.after h a f scope t (s, w)).1⟩ :: waiting.map (⟨·, .waiting⟩), taken⟩ := by
  have hidle : (waiting.map fun t => (⟨t, .waiting⟩ : Job)).countP (·.stage.isActive) = 0 := by
    simp [List.countP_eq_zero, Stage.isActive]
  have hfree : ¬ (s.isWaiting = true ∧
      1 ≤ (⟨w, ⟨t, s⟩ :: waiting.map (⟨·, .waiting⟩), taken⟩ : Pool σ).active) := by
    rintro ⟨hs, hactive⟩
    rw [active, List.countP_cons, hidle] at hactive
    cases s <;> simp_all [Stage.isWaiting, Stage.isActive]
  rw [move]
  exact if_neg hfree

theorem follow_first (waiting : List Target) (taken : List (Target × Except Failure (Option Result))) :
    let y : Attempt σ := ⟨f, scope, t, w⟩
    (⟨w, (t :: waiting).map (⟨·, .waiting⟩), taken⟩ : Pool σ).follow h a f scope 1
        [.step 0, .step 0, .step 0, .take 0] =
      ⟨y.left h a, waiting.map (⟨·, .waiting⟩), taken ++ [(t, y.kept h a)]⟩ := by
  intro y
  have hthree : Stage.after h a f scope t (Stage.after h a f scope t (Stage.after h a f scope t (.waiting, w))) =
      (.ended (y.kept h a), y.left h a) := y.iterate_after
  simp only [follow, List.foldl_cons, List.foldl_nil, List.map_cons, move_step_first]
  rw [Prod.mk.eta, Prod.mk.eta, hthree]
  rfl

/-- Targets that are taken in turn come to where their attempts come to. -/
theorem follow_inTurn (targets : List Target) (w : World σ)
    (taken : List (Target × Except Failure (Option Result))) :
    (⟨w, targets.map (⟨·, .waiting⟩), taken⟩ : Pool σ).follow h a f scope 1 (Round.inTurn targets.length) =
      ⟨leftBy h a f scope w targets, [],
        taken ++ (attempts h a f scope w targets).map fun y => (y.target, y.kept h a)⟩ := by
  induction targets generalizing w taken with
  | nil => simp [Round.inTurn, follow, leftBy, attempts]
  | cons t rest ih =>
    rw [List.length_cons, Round.inTurn, List.replicate_succ, List.flatten_cons, follow_append, follow_first]
    refine (ih _ _).trans ?_
    simp [leftBy, attempts]

end Pool

namespace Round

theorem pool_inTurn : x.pool h a 1 (inTurn x.targets.length) =
    ⟨x.left h a, [], (x.attempts h a).map fun y => (y.target, y.kept h a)⟩ :=
  Pool.follow_inTurn x.targets x.begun []

end Round

end LintRunner
