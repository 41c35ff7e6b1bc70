import LintRunner.Proofs.Run.Idle

/-! Running a command: it is started once, or something stands in its way and nothing is started.
`World.Steady P` lies between worlds when what happened is as `P` says and the stash is where it
was. -/

namespace LintRunner

variable {σ α : Type} {h : Host σ} {w w' w'' : World σ} {P Q : Event → Prop}

namespace World

/-- The commands started on the way from `w` to `w'`. -/
def startsSince (w w' : World σ) : List Spawn := w'.starts.drop w.starts.length

theorem startsSince_of_starts_eq {ss : List Spawn} (hs : w'.starts = w.starts ++ ss) :
    w.startsSince w' = ss := by
  rw [startsSince, hs, List.drop_left]

theorem Extends.starts (hw : Extends P w w') :
    ∃ new : List Event, w'.starts = w.starts ++ new.filterMap Event.start? ∧ ∀ e ∈ new, P e := by
  obtain ⟨new, he, hp⟩ := hw
  exact ⟨new, by rw [World.starts, he, List.filterMap_append, World.starts], hp⟩

structure Steady (P : Event → Prop) (w w' : World σ) : Prop where
  stash : w'.holding.stash = w.holding.stash
  extends_ : Extends P w w'

theorem Steady.refl (w : World σ) : Steady P w w := ⟨rfl, Extends.refl w⟩

theorem Steady.trans (h₁ : Steady P w w') (h₂ : Steady P w' w'') : Steady P w w'' :=
  ⟨h₂.stash.trans h₁.stash, h₁.extends_.trans h₂.extends_⟩

theorem Steady.mono (hw : Steady P w w') (hPQ : ∀ e, P e → Q e) : Steady Q w w' :=
  ⟨hw.stash, hw.extends_.mono hPQ⟩

instance : IsPreorder (World σ) (Steady P) where
  refl := Steady.refl
  trans _ _ _ := Steady.trans

theorem Idle.steady (hP : ∀ e : Event, e.isNote = true → P e) (hw : Idle w w') : Steady P w w' :=
  ⟨by rw [hw.holding], hw.notes.mono hP⟩

end World

open World Run

namespace Exec

/-- What starting the command of a request from `w` can come to. -/
structure Request.Starts (r : Request) (h : Host σ) (w : World σ) (s : Spawn) : Prop where
  program : ∃ exe ∈ candidates r.exe (searchPath (overlay h.env r.env)), s.argv = exe :: r.args
  directory : w.tree.resolve h.cwd (r.inDir.getD ⟨.root, h.cwd⟩) = .ok s.cwd
  env : s.env = overlay h.env r.env

/-- No such program, or no way to the directory it is to run in. -/
def Request.Stuck (r : Request) (h : Host σ) (w : World σ) : Prop :=
  lookup? w.tree h.cwd r.exe (searchPath (overlay h.env r.env)) = none ∨
    ∀ q, w.tree.resolve h.cwd (r.inDir.getD ⟨.root, h.cwd⟩) ≠ .ok q

theorem Request.Starts.of_tree_eq {r : Request} {s : Spawn} (hs : r.Starts h w s)
    (ht : w.tree = w'.tree) : r.Starts h w' s := ⟨hs.program, ht ▸ hs.directory, hs.env⟩

theorem Request.Stuck.of_tree_eq {r : Request} (hs : r.Stuck h w) (ht : w.tree = w'.tree) :
    r.Stuck h w' := by
  unfold Request.Stuck at hs ⊢
  rwa [ht] at hs

theorem candidates_of_lookup? {t : FileTree} {here : Location} {exe searched found : String}
    (hf : lookup? t here exe searched = some found) : found ∈ candidates exe searched :=
  List.mem_of_find?_eq_some hf

/-- The process is started, and that is noted, whatever comes of it. -/
theorem spawn_events (s : Spawn) (h : Host σ) (w : World σ) :
    ((spawn s).go h w).2.holding = w.holding ∧
      ((spawn s).go h w).2.events = w.events ++ [.spawned s (h.spawn s w.tree w.mind).1] := by
  simp only [spawn, go_bind, go_host, go_world, go_change, go_record, go_ofExcept]
  exact ⟨rfl, events_record _ _⟩

theorem spawn_starts (s : Spawn) (h : Host σ) (w : World σ) :
    ((spawn s).go h w).2.starts = w.starts ++ [s] := by
  rw [World.starts, (spawn_events s h w).2, List.filterMap_append]
  rfl

theorem idle_logEnd (r : Request) (c : Completed) : Moves h Idle (logEnd r c) := by
  unfold logEnd
  split
  · exact idle_debug _
  · refine (idle_debug _).bind fun _ => Moves.ite ?_ (moves_pure _)
    exact ((idle_debug _).bind fun _ => (idle_debug _).ite (moves_pure _)).ite
      ((idle_debug _).ite (moves_pure _))

/-- What follows a start looks no further than at how the process ended. -/
theorem idle_judged (r : Request) (c : Completed) :
    Moves h Idle (do logEnd r c; ofExcept .exec (classify r c)) :=
  (idle_logEnd r c).bind fun _ => moves_ofExcept _ _

/-- Once the program and the directory are known, the process is started. -/
theorem started (r : Request) (s : Spawn) (h : Host σ) (w : World σ) :
    ((do
      debug ("Running command [" ++ r.commandLine ++ "] with cwd = " ++ s.cwd.text)
      let c ← spawn s
      logEnd r c
      ofExcept .exec (classify r c) : Run σ Output).go h w).2.starts = w.starts ++ [s] := by
  obtain ⟨_, w₁, hdebug, -, hw₁⟩ := yields_debug (h := h)
    ("Running command [" ++ r.commandLine ++ "] with cwd = " ++ s.cwd.text) w
  rw [go_bind_ok hdebug, ← hw₁.starts, ← spawn_starts s h w₁]
  rcases go_bind_cases (spawn s) _ h w₁ with ⟨e, w₂, hs, hr⟩ | ⟨c, w₂, hs, hr⟩
  · rw [hr, hs]
  · rw [hr, hs]
    exact (idle_judged r c w₂).starts

/-- One start, or none and an error. -/
theorem run_starts (r : Request) (h : Host σ) (w : World σ) :
    (r.Stuck h w ∧ ∃ e, (run r).go h w = (.error e, w)) ∨
      ∃ s, r.Starts h w s ∧ ((run r).go h w).2.starts = w.starts ++ [s] := by
  simp only [run, go_bind_ok (go_host h w), go_bind_ok (go_tree h w), go_bind_ok (go_here h w)]
  cases hfound : lookup? w.tree h.cwd r.exe (searchPath (overlay h.env r.env)) with
  | none => exact .inl ⟨.inl hfound, _, rfl⟩
  | some exe =>
    simp only [go_bind_ok (go_cwd h w)]
    have hresolve := go_resolve (r.inDir.getD ⟨.root, h.cwd⟩) h w
    cases hq : w.tree.resolve h.cwd (r.inDir.getD ⟨.root, h.cwd⟩) with
    | error c =>
      rw [hq] at hresolve
      rw [go_bind_error hresolve]
      exact .inl ⟨.inr (by simp [hq]), _, rfl⟩
    | ok q =>
      rw [hq] at hresolve
      rw [go_bind_ok hresolve]
      refine .inr ⟨⟨exe :: r.args, q, overlay h.env r.env⟩,
        ⟨⟨exe, candidates_of_lookup? hfound, rfl⟩, hq, rfl⟩, ?_⟩
      rw [← started r]

/-- All that a command leaves behind is its start and what is said about it. -/
theorem steady_run {r : Request} (hnote : ∀ e : Event, e.isNote = true → P e)
    (hspawned : ∀ s outcome, (∃ exe ∈ candidates r.exe (searchPath (overlay h.env r.env)),
      s.argv = exe :: r.args) → P (.spawned s outcome)) : Moves h (Steady P) (run r) := by
  have hidle {β : Type} {act : Run σ β} (hact : Moves h Idle act) : Moves h (Steady P) act :=
    hact.mono fun _ _ hw => hw.steady hnote
  intro w
  simp only [run, go_bind_ok (go_host h w), go_bind_ok (go_tree h w), go_bind_ok (go_here h w)]
  cases hfound : lookup? w.tree h.cwd r.exe (searchPath (overlay h.env r.env)) with
  | none => exact Steady.refl w
  | some exe =>
    refine (moves_cwd.bind fun here => (hidle (idle_resolve _)).bind fun cwd =>
      (hidle (idle_debug _)).bind fun _ => Moves.bind (fun w => ?_) fun c => hidle (idle_judged r c)) w
    obtain ⟨hheld, he⟩ := spawn_events ⟨exe :: r.args, cwd, overlay h.env r.env⟩ h w
    refine ⟨by rw [hheld], _, he, ?_⟩
    simpa using hspawned _ _ ⟨exe, candidates_of_lookup? hfound, rfl⟩

end Exec

end LintRunner
