import LintRunner.Filter.Invocation
import LintRunner.Ignore.Walk
import LintRunner.Proofs.Run.Basic
import LintRunner.Report

/-! Runs that look around and say what they see: they start nothing, ask nobody, hold on to nothing
and leave the tree as it is. `World.Idle` is what lies between the worlds before and after; every
part of a pass but the commands and the questions to git moves along it. -/

namespace LintRunner

variable {σ α : Type} {h : Host σ} {w w' w'' : World σ} {P Q : Event → Prop}

namespace Event

/-- Something said and no more. -/
def isNote : Event → Bool
  | .logged _ _ => true
  | .printed _ => true
  | _ => false

def start? : Event → Option Spawn
  | .spawned s _ => some s
  | _ => none

theorem start?_of_isNote {e : Event} (he : e.isNote = true) : e.start? = none := by
  cases e <;> first | rfl | cases he

end Event

namespace World

/-- All that has happened since is as `P` says. -/
def Extends (P : Event → Prop) (w w' : World σ) : Prop :=
  ∃ new, w'.events = w.events ++ new ∧ ∀ e ∈ new, P e

theorem Extends.refl (w : World σ) : Extends P w w := ⟨[], by simp, by simp⟩

theorem Extends.trans (h₁ : Extends P w w') (h₂ : Extends P w' w'') : Extends P w w'' := by
  obtain ⟨new₁, he₁, hp₁⟩ := h₁
  obtain ⟨new₂, he₂, hp₂⟩ := h₂
  refine ⟨new₁ ++ new₂, by rw [he₂, he₁, List.append_assoc], ?_⟩
  intro e he
  rcases List.mem_append.1 he with he | he
  · exact hp₁ e he
  · exact hp₂ e he

theorem Extends.mono (hw : Extends P w w') (hPQ : ∀ e, P e → Q e) : Extends Q w w' := by
  obtain ⟨new, he, hp⟩ := hw
  exact ⟨new, he, fun e hm => hPQ e (hp e hm)⟩

instance : IsPreorder (World σ) (Extends P) where
  refl := Extends.refl
  trans _ _ _ := Extends.trans

theorem events_record (w : World σ) (e : Event) : (w.record e).events = w.events ++ [e] := by
  simp [events, record]

theorem events_foldl_record (w : World σ) (es : List Event) :
    (es.foldl record w).events = w.events ++ es := by
  induction es generalizing w with
  | nil => simp
  | cons e es ih => rw [List.foldl_cons, ih, events_record, List.append_assoc, List.singleton_append]

theorem holding_foldl_record (w : World σ) (es : List Event) :
    (es.foldl record w).holding = w.holding := by
  induction es generalizing w with
  | nil => rfl
  | cons e es ih => exact ih (w.record e)

theorem extends_record {e : Event} (he : P e) (w : World σ) : Extends P w (w.record e) :=
  ⟨[e], events_record w e, by simpa using he⟩

/-- The commands that have been started, in order. -/
def starts (w : World σ) : List Spawn := w.events.filterMap Event.start?

structure Idle (w w' : World σ) : Prop where
  tree : w'.tree = w.tree
  holding : w'.holding = w.holding
  notes : Extends (·.isNote) w w'

theorem Idle.refl (w : World σ) : Idle w w := ⟨rfl, rfl, Extends.refl w⟩

theorem Idle.trans (h₁ : Idle w w') (h₂ : Idle w' w'') : Idle w w'' :=
  ⟨h₂.tree.trans h₁.tree, h₂.holding.trans h₁.holding, h₁.notes.trans h₂.notes⟩

instance : IsPreorder (World σ) Idle where
  refl := Idle.refl
  trans _ _ _ := Idle.trans

theorem Idle.starts (hw : Idle w w') : w'.starts = w.starts := by
  obtain ⟨new, he, hn⟩ := hw.notes
  have hnone : new.filterMap Event.start? = [] :=
    List.filterMap_eq_nil_iff.2 fun e hm => Event.start?_of_isNote (hn e hm)
  rw [World.starts, he, List.filterMap_append, hnone, List.append_nil, World.starts]

theorem idle_record {e : Event} (he : e.isNote = true) (w : World σ) : Idle w (w.record e) :=
  ⟨rfl, rfl, extends_record he w⟩

end World

open World

namespace Run

/-- The run ends with a value as `Q` says, and has only looked around. -/
def Yields (h : Host σ) (Q : α → Prop) (act : Run σ α) : Prop :=
  ∀ w, ∃ a w', act.go h w = (.ok a, w') ∧ Q a ∧ Idle w w'

section Yields

variable {β : Type} {A : α → Prop} {B : β → Prop}

theorem Yields.idle {act : Run σ α} (hact : Yields h A act) : Moves h Idle act := by
  intro w
  obtain ⟨a, w', hgo, -, hw⟩ := hact w
  rwa [hgo]

theorem yields_pure {a : α} (ha : A a) : Yields h A (pure a) := fun w => ⟨a, w, rfl, ha, Idle.refl w⟩

theorem yields_host : Yields h (· = h) host := fun w => ⟨h, w, rfl, rfl, Idle.refl w⟩

theorem Yields.bind {x : Run σ α} {f : α → Run σ β} (hx : Yields h A x)
    (hf : ∀ a, A a → Yields h B (f a)) : Yields h B (x >>= f) := by
  intro w
  obtain ⟨a, w₁, hxw, ha, hw₁⟩ := hx w
  obtain ⟨b, w₂, hfw, hb, hw₂⟩ := hf a ha w₁
  exact ⟨b, w₂, by rw [go_bind_ok hxw, hfw], hb, hw₁.trans hw₂⟩

theorem Yields.ite {c : Prop} [Decidable c] {x y : Run σ α} (hx : c → Yields h A x)
    (hy : ¬c → Yields h A y) : Yields h A (if c then x else y) := by
  split
  · exact hx ‹_›
  · exact hy ‹_›

theorem Yields.forM {f : α → Run σ PUnit} (hf : ∀ a, Yields h (fun _ => True) (f a)) (as : List α) :
    Yields h (fun _ => True) (as.forM f) := by
  induction as with
  | nil => exact yields_pure trivial
  | cons a as ih => exact (hf a).bind fun _ _ => ih

end Yields

theorem yields_record {e : Event} (he : e.isNote = true) :
    Yields h (fun _ => True) (record e) := fun w => ⟨(), _, rfl, trivial, World.idle_record he w⟩

theorem yields_log (level : Level) (message : String) :
    Yields h (fun _ => True) (log level message) := by
  refine fun w => ⟨(), _, rfl, trivial, ?_⟩
  dsimp only
  split
  · exact World.idle_record rfl w
  · exact Idle.refl w

theorem yields_debug (message : String) : Yields h (fun _ => True) (debug message) := yields_log _ _

theorem yields_info (message : String) : Yields h (fun _ => True) (info message) := yields_log _ _

theorem yields_print (text : String) : Yields h (fun _ => True) (print text) := yields_record rfl

theorem yields_now : Yields h (fun _ => True) now := by
  refine fun w => ⟨_, _, rfl, trivial, rfl, rfl, ?_⟩
  exact Extends.refl (P := (·.isNote)) w

theorem idle_log (level : Level) (message : String) : Moves h Idle (log level message) :=
  (yields_log level message).idle

theorem idle_debug (message : String) : Moves h Idle (debug message) := idle_log _ _

theorem go_askTree (ask : FileTree → Location → Path → Except Refusal α) (p : Path) (h : Host σ)
    (w : World σ) :
    (askTree ask p).go h w = ((ask w.tree h.cwd p).mapError (Failure.ofRefusal p), w) := by
  simp only [askTree, go_bind_ok (go_tree h w), go_bind_ok (go_here h w), go_ofExcept]

theorem of_go_askTree_ok {ask : FileTree → Location → Path → Except Refusal α} {p : Path} {a : α}
    (hgo : (askTree ask p).go h w = (.ok a, w')) : w' = w ∧ ask w.tree h.cwd p = .ok a := by
  rw [go_askTree, Prod.mk.injEq] at hgo
  exact ⟨hgo.2.symm, of_mapError_ok hgo.1⟩

theorem idle_askTree (ask : FileTree → Location → Path → Except Refusal α) (p : Path) :
    Moves h Idle (askTree ask p) :=
  moves_tree.bind fun _ => moves_here.bind fun _ => moves_ofExcept _ _

theorem go_resolve (p : Path) (h : Host σ) (w : World σ) :
    (resolve p).go h w = ((w.tree.resolve h.cwd p).mapError fun
      | .circle => .crash .linkCircle
      | .nul => .crash .nulInPath, w) := by
  simp only [resolve, go_bind_ok (go_tree h w), go_bind_ok (go_here h w)]
  split <;> simp [*]

theorem of_go_resolve_ok {p q : Path} (hgo : (resolve p).go h w = (.ok q, w')) :
    w' = w ∧ w.tree.resolve h.cwd p = .ok q := by
  rw [go_resolve, Prod.mk.injEq] at hgo
  exact ⟨hgo.2.symm, of_mapError_ok hgo.1⟩

theorem go_resolve_of_ok {p q : Path} (hq : w.tree.resolve h.cwd p = .ok q) :
    (resolve p).go h w = (.ok q, w) := by
  rw [go_resolve, hq]
  rfl

theorem idle_resolve (p : Path) : Moves h Idle (resolve p) := by
  intro w
  rw [go_resolve]
  exact Idle.refl w

end Run

open Run

theorem Terminal.yields_shownPaint (colored : Bool) (paint : Option Paint) :
    Yields h (fun _ => True) (shownPaint colored paint) := by
  have hknows : Yields h (fun _ => True) knowsColors := yields_host.bind fun _ _ => yields_pure trivial
  exact hknows.bind fun _ _ => yields_pure trivial

theorem Terminal.yields_printLine (colored : Option Bool) (paint : Option Paint) (text : String) :
    Yields h (fun _ => True) (printLine colored paint text) := by
  have hasked : Yields h (fun _ => True) isTerminal := yields_host.bind fun _ _ => yields_pure trivial
  exact hasked.bind fun _ _ => (yields_shownPaint _ _).bind fun _ _ => yields_print _

namespace Reporter

variable (r : Reporter)

theorem yields_insist (paint : Option Terminal.Paint) (text : String) :
    Yields h (fun _ => True) (r.insist paint text) := Terminal.yields_printLine _ _ _

theorem yields_say (paint : Option Terminal.Paint) (text : String) :
    Yields h (fun _ => True) (r.say paint text) := by
  unfold say
  split
  · exact yields_pure trivial
  · exact r.yields_insist paint text

theorem yields_echo (out : Option String) : Yields h (fun _ => True) (r.echo out) := by
  unfold echo
  split
  · exact yields_pure trivial
  · exact yields_pure trivial
  · exact r.yields_insist _ _

theorem yields_lintFailed (name summary : String) (paths : List Path) (out err : Option String) :
    Yields h (fun _ => True) (r.lintFailed name summary paths out err) := by
  refine (r.yields_insist _ _).bind fun _ _ => (r.yields_echo _).bind fun _ _ =>
    (r.yields_echo _).bind fun _ _ => ?_
  exact .ite (fun _ => r.yields_insist _ _) fun _ => yields_pure trivial

end Reporter

namespace IgnoreFile

theorem idle_release (f : IgnoreFile) (start : Path) : Moves h Idle (f.release start) := by
  unfold release
  split
  · exact moves_pure _
  · exact (idle_debug _).bind fun _ => moves_pure _

theorem idle_readLines (source : Path) (lines : List String) :
    Moves h Idle (readLines source lines) := by
  induction lines with
  | nil => exact moves_pure _
  | cons line rest ih =>
    unfold readLines
    split
    · exact ih.bind fun _ => moves_pure _
    · exact (idle_log _ _).bind fun _ => ih
    · exact moves_fail _

theorem idle_load (source directory : Path) : Moves h Idle (load source directory) := by
  refine (idle_askTree _ _).attempt.bind fun r => ?_
  split
  · exact (idle_log _ _).bind fun _ => moves_pure _
  · exact moves_fail _
  · exact (idle_readLines _ _).bind fun _ => moves_pure _

end IgnoreFile

theorem idle_findGitRoot (start : Path) : Moves h Idle (findGitRoot start) :=
  Moves.findM? (fun _ => idle_askTree _ _) _

namespace Walker

theorem idle_start (root : Path) : Moves h Idle (Walker.start root) :=
  (idle_findGitRoot root).bind fun _ => moves_pure _

theorem idle_loadIfFile (source directory : Path) : Moves h Idle (loadIfFile source directory) := by
  refine (idle_askTree _ _).bind fun b => ?_
  split
  · exact (IgnoreFile.idle_load _ _).bind fun _ => moves_pure _
  · exact moves_pure _

variable (v : Walker)

theorem idle_rulesIn (directory : Path) : Moves h Idle (v.rulesIn directory) := by
  have hown (forGit : List IgnoreFile) : Moves h Idle (do
      return forGit ++ (← loadIfFile (directory.child ".ignore") directory)) :=
    (idle_loadIfFile _ _).bind fun _ => moves_pure _
  unfold rulesIn
  split
  · exact (idle_loadIfFile _ _).bind hown
  · exact (moves_pure _).bind hown

theorem idle_inherited (base : Path) : Moves h Idle (v.inherited base) := by
  have hbelow (own : List IgnoreFile) (directories : List Path) :
      Moves h Idle (do return own ++ (← directories.mapM v.rulesIn).flatten) :=
    (Moves.mapM v.idle_rulesIn directories).bind fun _ => moves_pure _
  unfold inherited
  split
  · refine (idle_loadIfFile _ _).bind fun own => ?_
    split
    · exact moves_pure own
    · exact hbelow own _
  · refine (moves_pure _).bind fun own => ?_
    split
    · exact moves_pure own
    · exact hbelow own _

theorem idle_listing (directory : Path) : Moves h Idle (listing directory) := by
  refine moves_tree.bind fun t => moves_here.bind fun l => ?_
  split
  · exact moves_tree.bind fun _ => moves_pure _
  · exact moves_pure _

theorem idle_admits (rules : List IgnoreFile) (directory : Path) :
    Moves h Idle (admits rules directory) := by
  unfold admits
  split
  · exact moves_pure _
  · split
    · exact (idle_debug _).bind fun _ => moves_pure _
    · exact moves_pure _

theorem idle_foldBelow {step : α → Path → Run σ α} (hstep : ∀ acc p, Moves h Idle (step acc p))
    (levels : Nat) (above : List IgnoreFile) (directory : Path) (acc : α) :
    Moves h Idle (v.foldBelow step levels above directory acc) := by
  induction levels generalizing above directory acc with
  | zero => exact moves_pure _
  | succ levels ih =>
    unfold foldBelow
    refine (idle_listing _).bind fun entries => (v.idle_rulesIn _).bind fun own =>
      moves_tree.bind fun t => moves_here.bind fun l => ?_
    exact (Moves.filterM (fun _ => idle_admits _ _) _).bind fun kept =>
      (Moves.foldlM hstep _ _).bind fun acc => Moves.foldlM (fun acc e => ih _ _ _) _ _

theorem idle_foldFiles {step : α → Path → Run σ α} (hstep : ∀ acc p, Moves h Idle (step acc p))
    (base : Path) (acc : α) : Moves h Idle (v.foldFiles step base acc) :=
  (v.idle_inherited base).bind fun _ => (Moves.mapM (fun f => f.idle_release base) _).bind fun _ =>
    moves_tree.bind fun _ => v.idle_foldBelow hstep _ _ _ _

end Walker

namespace Snapshot

theorem idle_below (root member : Path) : Moves h Idle (below root member) := by
  unfold below
  split
  · exact moves_pure _
  · exact moves_fail _

theorem idle_membersOf (directory : Path) : Moves h Idle (membersOf directory) := by
  refine moves_tree.bind fun t => moves_here.bind fun l => ?_
  split
  · exact moves_tree.bind fun _ => moves_pure _
  · exact moves_fail _
  · exact moves_fail _

theorem idle_isWanted (root : Path) (wanted : Path → Bool) (member : Path) :
    Moves h Idle (isWanted root wanted member) := by
  refine (idle_askTree _ _).bind fun b => ?_
  split
  · exact (idle_below _ _).bind fun _ => moves_pure _
  · exact moves_pure _

theorem idle_capture (root target : Path) (wanted : Path → Bool) :
    Moves h Idle (capture root target wanted) := by
  refine (idle_askTree _ _).bind fun b => ?_
  split
  · exact (idle_askTree _ _).bind fun _ => moves_pure _
  · refine (idle_askTree _ _).bind fun b => ?_
    split
    · refine (idle_membersOf _).bind fun _ => (Moves.filterM (idle_isWanted _ _) _).bind fun _ => ?_
      exact (Moves.mapM (fun _ => (idle_askTree _ _).bind fun _ => moves_pure _) _).bind
        fun _ => moves_pure _
    · exact moves_fail _

theorem idle_differs (p : Path) (before : ByteArray) : Moves h Idle (differs p before) := by
  refine (idle_debug _).bind fun _ => moves_tree.bind fun t => moves_here.bind fun l => ?_
  split
  · exact moves_pure _
  · exact moves_pure _
  · exact (moves_pure _).ite (moves_fail _)
  · exact moves_fail _

theorem idle_isNew (s : Snapshot) (wanted : Path → Bool) (member : Path) :
    Moves h Idle (s.isNew wanted member) := by
  unfold isNew
  split
  · exact moves_pure _
  · exact idle_isWanted _ _ _

theorem idle_changed (s : Snapshot) (wanted : Path → Bool) : Moves h Idle (s.changed wanted) := by
  refine (Moves.anyM (fun _ => idle_differs _ _) _).bind fun b => ?_
  split
  · exact moves_pure _
  · split
    · exact moves_pure _
    · refine (idle_askTree _ _).bind fun b => ?_
      split
      · exact (idle_membersOf _).bind fun _ => Moves.anyM (s.idle_isNew wanted) _
      · exact moves_pure _

end Snapshot

end LintRunner
