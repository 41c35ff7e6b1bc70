import LintRunner.Proofs.Pass.Stash

/-! A selector that is used again and again: however its uses follow one another, fail or enclose one
another, it has at most one stash outstanding, and has one just while it holds on to one. `Turns` is
what git is asked about stashes on the way from one state to the other, `Kept` what lies between the
worlds before and after a use. -/

namespace LintRunner

open World Run

variable {σ α : Type} {h : Host σ} {w w' w'' : World σ} {es es' : List Event} {e : Event}
  {b b' b'' : Bool}

/-- From one event to the next: a stash is told of only where none is outstanding, and asked back only
where one is. -/
inductive Turns : Bool → List Event → Bool → Prop
  | nil (b : Bool) : Turns b [] b
  | aside {b b' : Bool} {e : Event} {es : List Event} (hstash : e.reportsStash = false)
      (hpop : e.isPop = false) (hes : Turns b es b') : Turns b (e :: es) b'
  | stash {b' : Bool} {e : Event} {es : List Event} (hstash : e.reportsStash = true)
      (hes : Turns true es b') : Turns false (e :: es) b'
  | pop {b' : Bool} {e : Event} {es : List Event} (hpop : e.isPop = true)
      (hes : Turns false es b') : Turns true (e :: es) b'

theorem Turns.append (hes : Turns b es b') (hes' : Turns b' es' b'') : Turns b (es ++ es') b'' := by
  induction hes with
  | nil b => exact hes'
  | aside hstash hpop _ ih => exact .aside hstash hpop (ih hes')
  | stash hstash _ ih => exact .stash hstash (ih hes')
  | pop hpop _ ih => exact .pop hpop (ih hes')

theorem turns_of_aside (hes : ∀ e ∈ es, e.Aside) (b : Bool) : Turns b es b := by
  induction es with
  | nil => exact .nil b
  | cons e es ih =>
    have he := hes e (by simp)
    exact .aside he.reportsStash he.2 (ih fun e hm => hes e (by simp [hm]))

theorem Event.isPop_of_reportsStash (he : e.reportsStash = true) : e.isPop = false := by
  unfold reportsStash at he
  split at he
  · next args out =>
    have hargs : args = Git.stashArgs := by simpa using (Bool.and_eq_true_iff.1 he).1
    subst hargs
    rfl
  · cases he

theorem Event.reportsStash_of_isPop (he : e.isPop = true) : e.reportsStash = false := by
  by_contra hno
  rw [Bool.not_eq_false] at hno
  rw [isPop_of_reportsStash hno] at he
  cases he

/-- The calls that told of a stash. -/
def stashesIn (es : List Event) : Nat := es.countP (·.reportsStash)

/-- The calls that asked one back, whatever came of them. -/
def popsIn (es : List Event) : Nat := es.countP (·.isPop)

/-- As many stashes as are asked back, and one more while `held`; and at no time in between less than
none outstanding or more than one. -/
structure Balanced (es : List Event) (held : Bool) : Prop where
  outstanding : stashesIn es = popsIn es + held.toNat
  always : ∀ front, front <+: es → popsIn front ≤ stashesIn front ∧ stashesIn front ≤ popsIn front + 1

theorem Turns.outstanding (hes : Turns b es b') :
    stashesIn es + b.toNat = popsIn es + b'.toNat := by
  induction hes with
  | nil b => simp [stashesIn, popsIn]
  | aside hstash hpop _ ih => simpa [stashesIn, popsIn, hstash, hpop] using ih
  | stash hstash _ ih =>
    have hpop := Event.isPop_of_reportsStash hstash
    simp only [stashesIn, popsIn, Bool.toNat_true, Bool.toNat_false] at ih ⊢
    simp only [List.countP_cons, hstash, hpop, if_true, Bool.false_eq_true, if_false]
    omega
  | pop hpop _ ih =>
    have hstash := Event.reportsStash_of_isPop hpop
    simp only [stashesIn, popsIn, Bool.toNat_true, Bool.toNat_false] at ih ⊢
    simp only [List.countP_cons, hstash, hpop, if_true, Bool.false_eq_true, if_false]
    omega

theorem Turns.front {front : List Event} (hes : Turns b es b') (hfront : front <+: es) :
    ∃ c, Turns b front c := by
  induction hes generalizing front with
  | nil b =>
    rw [List.prefix_nil.1 hfront]
    exact ⟨b, .nil b⟩
  | aside hstash hpop _ ih =>
    rcases List.prefix_cons_iff.1 hfront with rfl | ⟨rest, rfl, hrest⟩
    · exact ⟨_, .nil _⟩
    · exact (ih hrest).imp fun c hc => .aside hstash hpop hc
  | stash hstash _ ih =>
    rcases List.prefix_cons_iff.1 hfront with rfl | ⟨rest, rfl, hrest⟩
    · exact ⟨_, .nil _⟩
    · exact (ih hrest).imp fun c hc => .stash hstash hc
  | pop hpop _ ih =>
    rcases List.prefix_cons_iff.1 hfront with rfl | ⟨rest, rfl, hrest⟩
    · exact ⟨_, .nil _⟩
    · exact (ih hrest).imp fun c hc => .pop hpop hc

theorem Turns.balanced (hes : Turns false es b) : Balanced es b where
  outstanding := by simpa using hes.outstanding
  always := by
    intro front hfront
    obtain ⟨c, hc⟩ := hes.front hfront
    have hcount := hc.outstanding
    have hle : c.toNat ≤ 1 := Bool.toNat_le c
    simp only [Bool.toNat_false] at hcount
    omega

namespace World

/-- There is a stash to bring back. -/
def holdsStash (w : World σ) : Bool := w.holding.stash == some true

/-- What git was asked about stashes on the way is what became of the one held. -/
def Kept (w w' : World σ) : Prop :=
  ∃ es, w'.events = w.events ++ es ∧ Turns w.holdsStash es w'.holdsStash

theorem Kept.refl (w : World σ) : Kept w w := ⟨[], by simp, .nil _⟩

theorem Kept.trans (h₁ : Kept w w') (h₂ : Kept w' w'') : Kept w w'' := by
  obtain ⟨es₁, he₁, ht₁⟩ := h₁
  obtain ⟨es₂, he₂, ht₂⟩ := h₂
  exact ⟨es₁ ++ es₂, by rw [he₂, he₁, List.append_assoc], ht₁.append ht₂⟩

instance : IsPreorder (World σ) Kept where
  refl := Kept.refl
  trans _ _ _ := Kept.trans

theorem Steady.kept (hw : Steady Event.Aside w w') : Kept w w' := by
  obtain ⟨es, he, hes⟩ := hw.extends_
  have hheld : w'.holdsStash = w.holdsStash := by rw [holdsStash, hw.stash, holdsStash]
  exact ⟨es, he, hheld ▸ turns_of_aside hes _⟩

end World

/-- Whoever answers for git, what is said and what git itself is started for are no stashes. -/
theorem tolerates_asides (h : Host σ) : Tolerates h Event.Aside where
  note _ he := Event.aside_of_isQuestion (Event.isQuestion_of_isNote he)
  git _ _ _ _ := Event.aside_of_isQuestion rfl

theorem kept_of_idle {act : Run σ α} (hact : Moves h Idle act) : Moves h Kept act :=
  fun w => ((tolerates_asides h).idle hact w).kept

/-- A question to git: what comes before its answer is known has to do with no stash. -/
theorem Git.ask_cases (g : Git) (args : List String) (h : Host σ) (w : World σ) :
    ∃ outcome w₁, Steady Event.Aside w w₁ ∧
      (g.ask args).go h w = (outcome, w₁.record (.asked args outcome)) := by
  have hsteady := g.steady_answer (tolerates_asides h) args w
  have hfirst := go_attempt (g.answer args) h w
  rcases hgo : (g.answer args).go h w with ⟨outcome, w₁⟩
  rw [hgo] at hsteady hfirst
  refine ⟨outcome, w₁, hsteady, ?_⟩
  rw [ask, go_bind_ok hfirst, go_bind_ok (go_record _ h w₁), go_ofExcept]
  cases outcome <;> rfl

namespace Selector

variable (s : Selector)

theorem kept_ask {args : List String} (ha : args.head? ≠ some "stash") : Moves h Kept (s.git.ask args) :=
  fun w => (s.git.steady_ask (tolerates_asides h) (fun _ => Event.aside_asked ha) w).kept

theorem kept_repositoryRoot : Moves h Kept s.repositoryRoot :=
  fun w => (s.steady_repositoryRoot (tolerates_asides h) (fun _ _ => Event.aside_asked) w).kept

theorem kept_filesReported (entries : List String) : Moves h Kept (s.filesReported entries) :=
  fun w => (s.steady_filesReported (tolerates_asides h) (fun _ _ => Event.aside_asked) entries w).kept

/-- Where nothing is held, what git says of a stash is what is held then. -/
theorem kept_stash (hw : w.holding.stash = none) :
    Kept w ((do
      let active ← s.git.stash
      hold ({ · with stash := some active }) : Run σ Unit).go h w).2 := by
  obtain ⟨outcome, w₁, hsteady, hask⟩ := s.git.ask_cases Git.stashArgs h w
  obtain ⟨es, hes, haside⟩ := hsteady.extends_
  have hnone : w.holdsStash = false := by rw [holdsStash, hw]; rfl
  have hfront : Turns w.holdsStash es false := hnone ▸ turns_of_aside haside _
  cases outcome with
  | error e =>
    have hstash : (s.git.stash).go h w = (.error e, w₁.record (.asked Git.stashArgs (.error e))) :=
      go_bind_error hask _
    rw [go_bind_error hstash]
    refine ⟨es ++ [.asked Git.stashArgs (.error e)], by rw [events_record, hes, List.append_assoc], ?_⟩
    have hheld : (w₁.record (.asked Git.stashArgs (.error e))).holdsStash = false := by
      change (w₁.holding.stash == some true) = false
      rw [hsteady.stash, hw]
      rfl
    rw [hheld]
    exact hfront.append (.aside rfl rfl (.nil _))
  | ok out =>
    obtain ⟨w₂, hstash, hw₂⟩ := Git.go_stash hask
    obtain ⟨notes, he₂, hnotes⟩ := hw₂.notes
    rw [go_bind_ok hstash]
    refine ⟨es ++ .asked Git.stashArgs (.ok out) :: notes, ?_, hfront.append ?_⟩
    · have hends : w₂.events = w.events ++ (es ++ .asked Git.stashArgs (.ok out) :: notes) := by
        rw [he₂, events_record, hes]
        simp
      exact hends
    · have hback (b : Bool) : Turns b notes b := turns_of_aside (fun e hm =>
        Event.aside_of_isQuestion (Event.isQuestion_of_isNote (hnotes e hm))) b
      change Turns false _ (some (Git.reportsStash out) == some true)
      cases hreports : Git.reportsStash out with
      | true => exact .stash (by simp [Event.reportsStash, hreports]) (hback true)
      | false => exact .aside (by simp [Event.reportsStash, hreports]) rfl (hback false)

theorem kept_stashUnstaged : Moves h Kept s.stashUnstaged := by
  refine s.kept_repositoryRoot.bind fun top => (kept_of_idle (idle_askTree _ _)).bind fun merging => ?_
  refine Moves.ite (kept_of_idle (idle_debug _)) ?_
  intro w
  have hholding : holding.go h w = (.ok w.holding, w) := rfl
  rw [go_bind_ok hholding]
  split
  · next hnone => exact s.kept_stash (Option.isNone_iff_eq_none.1 hnone)
  · exact Kept.refl w

theorem kept_candidates (requested : List Path) : Moves h Kept (s.candidates requested) := by
  have hreported {args : List String} (ha : args.head? ≠ some "stash") :
      Moves h Kept (Git.linesOf <$> s.git.ask args >>= s.filesReported) :=
    ((s.kept_ask ha).map _).bind s.kept_filesReported
  unfold candidates
  split
  · exact kept_of_idle (s.idle_walkFiles _)
  · exact kept_of_idle (s.idle_explicitFiles _)
  · exact hreported (by decide)
  · exact hreported (by simp)
  · exact hreported (by decide)
  · exact s.kept_stashUnstaged.bind fun _ => hreported (by decide)

theorem kept_select (requested : List Path) : Moves h Kept (s.select requested) := by
  have hrest : Moves h Kept (do
      debug ("Selecting " ++ s.mode.describe)
      let files := Path.sortedSet (← s.candidates requested)
      if files ≠ [] then return some files
      else if s.mode.usesGit then return none
      else fail (.selection (.allExcluded s.mode))) :=
    (kept_of_idle (idle_debug _)).bind fun _ => (s.kept_candidates requested).bind fun _ =>
      (moves_pure _).ite ((moves_pure _).ite (moves_fail _))
  exact ((moves_fail _).bind fun _ => hrest).ite hrest

end Selector

/-- If it is a question to git, git answered it or said that it could not. -/
def Event.isReplied : Event → Bool
  | .asked _ (.error (.exec _)) => true
  | .asked _ (.error _) => false
  | _ => true

def Replied (es : List Event) : Prop := ∀ e ∈ es, e.isReplied = true

/-- What asking a stash back comes to: what git says, what is noted about it, and how that ends. -/
inductive Git.Returns : Except Failure String → List Event → Except Failure Unit → Prop
  | back (out : String) : Returns (.ok out) [] (.ok ())
  | refused (x : ExecError) : Returns (.error (.exec x))
      [.logged .error ("Error popping stash: " ++ x.message)] (.ok ())
  | broken (e : Failure) (he : ∀ x, e ≠ .exec x) : Returns (.error e) [] (.error e)

theorem Git.go_release_of_ask {g : Git} {outcome : Except Failure String} {w₁ : World σ}
    (hask : (g.ask popArgs).go h w = (outcome, w₁)) : ∃ notes r, Git.Returns outcome notes r ∧
      (g.release true).go h w = (r, notes.foldl World.record w₁) := by
  have hpop : (Run.attempt g.pop).go h w = (.ok (outcome.map fun _ => ()), w₁) := by
    rw [go_attempt, Git.pop, go_bind, hask]
    cases outcome <;> rfl
  rw [release, if_pos rfl, go_bind_ok hpop]
  cases outcome with
  | ok out => exact ⟨[], _, .back out, rfl⟩
  | error e =>
    have hexec : (∃ x, e = .exec x) ∨ ∀ x, e ≠ .exec x := by cases e <;> simp
    rcases hexec with ⟨x, rfl⟩ | hother
    · have hlog : (Run.log .error ("Error popping stash: " ++ x.message)).go h w₁ =
          (.ok (), w₁.record (.logged .error ("Error popping stash: " ++ x.message))) := by
        rw [Run.log, go_change]
        have hshown : w₁.verbosity.shows .error = true := by cases w₁.verbosity <;> rfl
        exact congrArg _ (if_pos hshown)
      exact ⟨_, _, .refused x, hlog⟩
    · refine ⟨[], .error e, .broken e hother, ?_⟩
      cases e with
      | exec x => exact absurd rfl (hother x)
      | _ => rfl

theorem Git.go_release (g : Git) (h : Host σ) (w : World σ) :
    ∃ outcome notes r w' es, Git.Returns outcome notes r ∧ (g.release true).go h w = (r, w') ∧
      w'.holding.stash = w.holding.stash ∧
      w'.events = w.events ++ (es ++ .asked popArgs outcome :: notes) ∧ ∀ e ∈ es, e.Aside := by
  obtain ⟨outcome, w₁, hsteady, hask⟩ := g.ask_cases popArgs h w
  obtain ⟨es, hes, haside⟩ := hsteady.extends_
  obtain ⟨notes, r, hreturns, hgo⟩ := Git.go_release_of_ask hask
  have hevents : (w₁.record (.asked popArgs outcome)).events =
      w.events ++ (es ++ [.asked popArgs outcome]) := by
    rw [events_record, hes, List.append_assoc]
  refine ⟨outcome, notes, r, _, es, hreturns, hgo, ?_, ?_, haside⟩
  · rw [holding_foldl_record]
    exact hsteady.stash
  · rw [events_foldl_record, hevents]
    simp

/-- A stash that is held is asked back once, whatever comes of it. -/
theorem Git.release_cases (g : Git) (held : Bool) (h : Host σ) (w : World σ) :
    ∃ r w' es, (g.release held).go h w = (r, w') ∧ w'.holding.stash = w.holding.stash ∧
      w'.events = w.events ++ es ∧ Turns held es false ∧ (Replied es → r = .ok ()) := by
  cases held with
  | false => exact ⟨.ok (), w, [], rfl, rfl, by simp, .nil _, fun _ => rfl⟩
  | true =>
    obtain ⟨outcome, notes, r, w', es, hreturns, hgo, hstash, hevents, haside⟩ := g.go_release h w
    have hnotes : ∀ e ∈ notes, e.Aside := by
      cases hreturns <;> simp [Event.Aside, Event.isStash, Event.isPop]
    refine ⟨r, w', _, hgo, hstash, hevents, ?_, fun hreplied => ?_⟩
    · exact (turns_of_aside haside true).append (.pop rfl (turns_of_aside hnotes false))
    · cases hreturns with
      | back => rfl
      | refused => rfl
      | broken e he =>
        have hreply := hreplied (.asked popArgs (.error e)) (by simp)
        cases e with
        | exec x => exact absurd rfl (he x)
        | _ => cases hreply

/-- After a selector is closed it holds no stash, and where git replied nothing has failed. -/
theorem Selector.close_cases (s : Selector) (h : Host σ) (w : World σ) :
    ∃ r w' es, s.close.go h w = (r, w') ∧ w'.events = w.events ++ es ∧
      Turns w.holdsStash es false ∧ w'.holdsStash = false ∧ (Replied es → r = .ok ()) := by
  have hholding : holding.go h w = (.ok w.holding, w) := rfl
  rw [close, go_bind_ok hholding]
  split
  · next hnone =>
    have hempty : w.holdsStash = false := by rw [holdsStash, hnone]; rfl
    exact ⟨.ok (), w, [], rfl, by simp, hempty ▸ .nil _, hempty, fun _ => rfl⟩
  · next active hactive =>
    let w₁ : World σ := { w with holding := { w.holding with stash := some false } }
    have hheld : (hold fun held => { held with stash := some false }).go h w = (.ok (), w₁) := rfl
    obtain ⟨r, w₂, es, hrelease, hstash, hes, hturns, hreplied⟩ := s.git.release_cases active h w₁
    have hactive : w.holdsStash = active := by
      rw [holdsStash, hactive]
      cases active <;> rfl
    rw [go_bind_ok hheld]
    cases r with
    | ok _ =>
      rw [go_bind_ok hrelease]
      exact ⟨.ok (), _, es, rfl, hes, hactive ▸ hturns, rfl, fun _ => rfl⟩
    | error e =>
      rw [go_bind_error hrelease]
      refine ⟨.error e, w₂, es, rfl, hes, hactive ▸ hturns, ?_, hreplied⟩
      rw [holdsStash, hstash]
      rfl

theorem Selector.kept_close (s : Selector) : Moves h Kept s.close := by
  intro w
  obtain ⟨r, w', es, hclose, hes, hturns, hempty, -⟩ := s.close_cases h w
  rw [hclose]
  exact ⟨es, hes, hempty ▸ hturns⟩

/-- What can be done with a selector, in any order and inside one another. -/
inductive Use where
  | nothing
  | select (requested : List Path)
  | close
  /-- Something else goes wrong. -/
  | interrupt (e : Failure)
  | inTurn (first rest : Use)
  /-- A failure ends it, but not what it is part of. -/
  | tried (u : Use)
  /-- However it ends, the selector is closed then. -/
  | block (body : Use)

namespace Use

def perform (s : Selector) : Use → Run σ Unit
  | nothing => return
  | select requested => do let _ ← s.select requested
  | close => s.close
  | interrupt e => Run.fail e
  | inTurn first rest => do
    first.perform s
    rest.perform s
  | tried u => do let _ ← Run.attempt (u.perform s)
  | block body => Run.ensuring (body.perform s) s.close

variable {s : Selector} {u v : Use}

/-- `Passes s h u w w'`: where `u` is begun in `w`, the end of one of the selections, closings and
blocks in it is reached in `w'`. -/
inductive Passes (s : Selector) (h : Host σ) : Use → World σ → World σ → Prop
  | select (requested : List Path) (w : World σ) :
      Passes s h (.select requested) w ((s.select requested).go h w).2
  | close (w : World σ) : Passes s h .close w (s.close.go h w).2
  | first {u v : Use} {w w' : World σ} (hu : Passes s h u w w') : Passes s h (.inTurn u v) w w'
  | rest {u v : Use} {w w₁ w' : World σ} (hu : (u.perform s).go h w = (.ok (), w₁))
      (hv : Passes s h v w₁ w') : Passes s h (.inTurn u v) w w'
  | tried {u : Use} {w w' : World σ} (hu : Passes s h u w w') : Passes s h (.tried u) w w'
  | inside {u : Use} {w w' : World σ} (hu : Passes s h u w w') : Passes s h (.block u) w w'
  | block (u : Use) (w : World σ) : Passes s h (.block u) w (((Use.block u).perform s).go h w).2

theorem kept_perform (s : Selector) (u : Use) : Moves h Kept (u.perform s) := by
  induction u with
  | nothing => exact moves_pure _
  | select requested => exact (s.kept_select requested).bind fun _ => moves_pure _
  | close => exact s.kept_close
  | interrupt e => exact moves_fail e
  | inTurn first rest ihfirst ihrest => exact ihfirst.bind fun _ => ihrest
  | tried u ih => exact ih.attempt.bind fun _ => moves_pure _
  | block body ih =>
    intro w
    rw [perform, go_ensuring]
    exact (ih w).trans (s.kept_close _)

theorem Passes.kept (hu : Passes s h u w w') : Kept w w' := by
  induction hu with
  | select requested w => exact s.kept_select requested w
  | close w => exact s.kept_close w
  | first _ ih => exact ih
  | @rest u v w w₁ w' hgo _ ih =>
    have hkept := kept_perform (h := h) s u w
    rw [hgo] at hkept
    exact hkept.trans ih
  | tried _ ih => exact ih
  | inside _ ih => exact ih
  | block u w => exact kept_perform s (.block u) w

end Use

namespace Selector

variable {s : Selector}

/-- A choice of files begun in `w` finds the repository in a merge when it looks. -/
def FindsMerge (s : Selector) (h : Host σ) (w : World σ) : Prop :=
  ∃ top w₁, (do
      debug ("Selecting " ++ s.mode.describe)
      s.repositoryRoot : Run σ Path).go h w = (.ok top, w₁) ∧
    w₁.tree.exists? h.cwd ((top.child ".git").child "MERGE_MODE") = .ok true

/-- Then git is not asked for a stash. -/
theorem steady_select_of_findsMerge (hmode : s.mode = .stagedWithStash) (hmerge : s.FindsMerge h w)
    (requested : List Path) : Steady Event.Aside w ((s.select requested).go h w).2 := by
  have hidle {β : Type} {act : Run σ β} (hact : Moves h Idle act) : Moves h (Steady Event.Aside) act :=
    (tolerates_asides h).idle hact
  obtain ⟨top, w₁, hgo, hexists⟩ := hmerge
  obtain ⟨_, w₀, hdebug, -, hw₀⟩ := yields_debug (h := h) ("Selecting " ++ s.mode.describe) w
  rw [go_bind_ok hdebug] at hgo
  have hroot := s.steady_repositoryRoot (tolerates_asides h) (fun _ _ => Event.aside_asked) w₀
  rw [hgo] at hroot
  have hmerging : (Git.mergeInProgress top).go h w₁ = (.ok true, w₁) := by
    rw [Git.mergeInProgress, Run.exists?, askTree, go_bind_ok (go_tree h w₁), go_bind_ok (go_here h w₁),
      hexists]
    rfl
  have hstash : s.stashUnstaged.go h w₀ =
      (debug "A merge is in progress; not stashing unstaged changes").go h w₁ := by
    rw [stashUnstaged, go_bind_ok hgo, go_bind_ok hmerging, if_pos rfl]
  have hstashed : Steady Event.Aside w (s.stashUnstaged.go h w₀).2 := by
    rw [hstash]
    have hbegun := hidle (yields_debug (h := h) ("Selecting " ++ s.mode.describe)).idle w
    rw [hdebug] at hbegun
    exact (hbegun.trans hroot).trans (hidle (idle_debug _) w₁)
  have hstaged : Moves h (Steady Event.Aside) (Git.linesOf <$> s.git.ask
      ["diff", "--cached", "--name-only", "--diff-filter=ACM"] >>= s.filesReported) :=
    ((s.git.steady_ask (tolerates_asides h) fun _ => Event.aside_asked (by decide)).map _).bind
      (s.steady_filesReported (tolerates_asides h) fun _ _ => Event.aside_asked)
  have hrest : Steady Event.Aside w ((do
      debug ("Selecting " ++ s.mode.describe)
      let files := Path.sortedSet (← s.candidates requested)
      if files ≠ [] then return some files
      else if s.mode.usesGit then return none
      else fail (.selection (.allExcluded s.mode))).go h w).2 := by
    rw [go_bind_ok hdebug, candidates, hmode]
    refine bind_leads ?_ (fun _ hw => hw) fun found w' hw' => hw'.trans ?_
    · exact bind_leads hstashed (fun _ hw => hw) fun _ w' hw' => hw'.trans (hstaged w')
    · exact (Moves.ite (moves_pure _) ((moves_pure _).ite (moves_fail _)) :
        Moves h (Steady Event.Aside) _) w'
  rw [select]
  split
  · exact Steady.refl w
  · exact hrest

end Selector

open Use in
/-- However a selector is used, the stashes that git told of and those asked back balance after every
use of it, but for the one that it holds; closing it and leaving a block give that one back, without
failing and without hiding how the block ended; and during a merge none is made. -/
theorem stash_balanced {root : Path} {cwd : Option Path} {exclude : List String} {git : Option Git}
    {s : Selector} {w₀ : World σ}
    (hstart : (Selector.start .stagedWithStash root cwd exclude git).go h w₀ = (.ok s, w)) :
    (∀ u w', Passes s h u w w' → ∃ es, w'.events = w.events ++ es ∧ Balanced es w'.holdsStash) ∧
    (∀ w₁, ∃ r w' es, s.close.go h w₁ = (r, w') ∧ w'.events = w₁.events ++ es ∧
      w'.holdsStash = false ∧ (Replied es → r = .ok ())) ∧
    (∀ body w₁, ∃ r w' es, ((block body).perform s).go h w₁ = (r, w') ∧
      w'.events = ((body.perform s).go h w₁).2.events ++ es ∧ w'.holdsStash = false ∧
      (Replied es → r = ((body.perform s).go h w₁).1)) ∧
    ∀ requested w₁, s.FindsMerge h w₁ → ∃ es, ((s.select requested).go h w₁).2.events =
      w₁.events ++ es ∧ ∀ e ∈ es, e.isStash = false := by
  obtain ⟨hmode, -, -, -, rfl⟩ := Selector.of_start_ok hstart
  refine ⟨?_, ?_, ?_, ?_⟩
  · intro u w' hu
    obtain ⟨es, hes, hturns⟩ := hu.kept
    exact ⟨es, hes, hturns.balanced⟩
  · intro w₁
    obtain ⟨r, w', es, hclose, hes, -, hempty, hreplied⟩ := s.close_cases h w₁
    exact ⟨r, w', es, hclose, hes, hempty, hreplied⟩
  · intro body w₁
    obtain ⟨r, w', es, hclose, hes, -, hempty, hreplied⟩ := s.close_cases h ((body.perform s).go h w₁).2
    rw [perform, go_ensuring, hclose]
    refine ⟨_, w', es, rfl, hes, hempty, fun hes => ?_⟩
    rw [hreplied hes]
  · intro requested w₁ hmerge
    obtain ⟨es, hes, haside⟩ := (Selector.steady_select_of_findsMerge hmode hmerge requested).extends_
    exact ⟨es, hes, fun e hm => (haside e hm).1⟩

namespace Sample

/-- Git has something to put aside, and cannot bring it back. -/
def conflict : Script :=
  { script with git := { args := Git.popArgs, outcome := .error "conflict" } :: script.git }

/-- A choice of files, after which something else goes wrong. -/
def brokenOff : Use := .inTurn (.select []) (.interrupt (.crash .interrupted))

/-- The same place, in the middle of a merge. -/
def inMerge (w : World Script) : World Script :=
  { w with tree := w.tree.plant [] ((root.child ".git").child "MERGE_MODE") (.file .empty false) }

end Sample

open Sample in
theorem stash_balanced_conflict : ∃ s w,
    (Selector.start .stagedWithStash root none [] none).go Sample.host (world conflict) = (.ok s, w) ∧
    (∃ es, ((s.select []).go Sample.host w).2.events = w.events ++ es ∧ stashesIn es = 1 ∧
      Balanced es true) ∧
    (∃ es, (((Use.block brokenOff).perform s).go Sample.host w).2.events = w.events ++ es ∧
      popsIn es = 1 ∧ Balanced es false) ∧
    (s.close.go Sample.host ((s.select []).go Sample.host w).2).1 = .ok () ∧
    s.FindsMerge Sample.host (inMerge w) ∧ ∃ es, ((s.select []).go Sample.host (inMerge w)).2.events =
      (inMerge w).events ++ es ∧ ∀ e ∈ es, e.isStash = false := by
  have hruns : (Selector.start .stagedWithStash root none [] none).comesTo Sample.host (world conflict)
      (fun s w => (do
          debug ("Selecting " ++ s.mode.describe)
          s.repositoryRoot : Run Script Path).comesTo Sample.host (inMerge w) fun top w₁ =>
        let chosen := ((s.select []).go Sample.host w).2
        let left := (((Use.block brokenOff).perform s).go Sample.host w).2
        decide (chosen.holdsStash = true ∧ left.holdsStash = false ∧
          stashesIn (chosen.events.drop w.events.length) = 1 ∧
          popsIn (left.events.drop w.events.length) = 1 ∧
          (∀ e ∈ (s.close.go Sample.host chosen).2.events.drop chosen.events.length,
            e.isReplied = true) ∧
          w₁.tree.exists? Sample.host.cwd ((top.child ".git").child "MERGE_MODE") = .ok true)) = true := by
    decide +kernel
  obtain ⟨s, w, hstart, hruns⟩ := of_comesTo hruns
  obtain ⟨top, w₁, hroot, hruns⟩ := of_comesTo hruns
  obtain ⟨hselected, hleft, hstashes, hpops, hreplied, hexists⟩ := of_decide_eq_true hruns
  obtain ⟨hpasses, hcloses, -, hmerge⟩ := stash_balanced hstart
  obtain ⟨es, hes, hbalanced⟩ := hpasses _ _ (.select [] w)
  obtain ⟨es', hes', hbalanced'⟩ := hpasses _ _ (.block brokenOff w)
  obtain ⟨r, w', es'', hclose, hes'', -, hends⟩ := hcloses ((s.select []).go Sample.host w).2
  have hfinds : s.FindsMerge Sample.host (inMerge w) := ⟨top, w₁, hroot, hexists⟩
  rw [hselected] at hbalanced
  rw [hleft] at hbalanced'
  rw [hes, List.drop_left] at hstashes
  rw [hes', List.drop_left] at hpops
  rw [hclose, hes'', List.drop_left] at hreplied
  refine ⟨s, w, hstart, ⟨es, hes, hstashes, hbalanced⟩, ⟨es', hes', hpops, hbalanced'⟩, ?_, hfinds,
    hmerge [] _ hfinds⟩
  rw [hclose]
  exact hends hreplied

end LintRunner
