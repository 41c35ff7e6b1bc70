import LintRunner.Proofs.Pass.Attempts
import LintRunner.Proofs.Selection.Frame

/-! A stash that git has told of is brought back once, after everything else a pass asks of git and
after all commands, and a pass that made none brings none back. `Fresh` holds until git is asked for
a stash, `Guarded` from then until the selection is closed. -/

namespace LintRunner

open World Run Pass

variable {σ : Type} {h : Host σ} {w₀ w w' : World σ}

namespace Event

def isQuestion : Event → Bool
  | .asked _ _ => true
  | _ => false

def isStash : Event → Bool
  | .asked args _ => args == Git.stashArgs
  | _ => false

def isPop : Event → Bool
  | .asked args _ => args == Git.popArgs
  | _ => false

/-- Git was asked for a stash and told of one. -/
def reportsStash : Event → Bool
  | .asked args (.ok out) => args == Git.stashArgs && Git.reportsStash out
  | _ => false

theorem isStash_of_reportsStash {e : Event} (he : e.reportsStash = true) : e.isStash = true := by
  unfold reportsStash at he
  split at he
  · exact (Bool.and_eq_true_iff.1 he).1
  · cases he

/-- It has nothing to do with a stash. -/
def Aside (e : Event) : Prop := e.isStash = false ∧ e.isPop = false

theorem Aside.reportsStash {e : Event} (he : e.Aside) : e.reportsStash = false := by
  rw [← Bool.not_eq_true]
  intro hr
  have hs := he.1
  rw [isStash_of_reportsStash hr] at hs
  cases hs

theorem aside_of_isQuestion {e : Event} (he : e.isQuestion = false) : e.Aside := by
  cases e <;> first | exact ⟨rfl, rfl⟩ | cases he

theorem isQuestion_of_isNote {e : Event} (he : e.isNote = true) : e.isQuestion = false := by
  cases e <;> first | rfl | cases he

theorem aside_asked {args : List String} {outcome : Except Failure String}
    (ha : args.head? ≠ some "stash") : (Event.asked args outcome).Aside := by
  constructor
  · exact beq_eq_false_iff_ne.2 fun he => ha (by rw [he]; rfl)
  · exact beq_eq_false_iff_ne.2 fun he => ha (by rw [he]; rfl)

end Event

/-- Either no stash is told of and none is brought back; or one is, all commands are started after it
and before it is brought back, and that happens once and is the last thing asked of git. -/
inductive StashBracketed (es : List Event) : Prop
  | unreported (hnone : ∀ e ∈ es, e.reportsStash = false ∧ e.isPop = false)
  | reported (before during after : List Event) (stash pop : Event)
      (hes : es = before ++ stash :: during ++ pop :: after) (hstash : stash.reportsStash = true)
      (hpop : pop.isPop = true) (hbefore : ∀ e ∈ before, e.Aside ∧ e.start? = none)
      (hduring : ∀ e ∈ during, e.Aside)
      (hafter : ∀ e ∈ after, e.isQuestion = false ∧ e.start? = none)

/-- Git has not been asked for a stash yet, and nothing but git has been started. -/
structure Fresh (w₀ w : World σ) : Prop where
  stash : w.holding.stash = none
  extends_ : Extends (fun e => e.Aside ∧ e.start? = none) w₀ w

/-- What has happened, given what the run holds on to. -/
inductive Holds (es : List Event) : Option Bool → Prop
  | clear {stash : Option Bool} (hs : stash ≠ some true)
      (hes : ∀ e ∈ es, e.reportsStash = false ∧ e.isPop = false) : Holds es stash
  | kept (before during : List Event) (stash : Event) (hes : es = before ++ stash :: during)
      (hstash : stash.reportsStash = true) (hbefore : ∀ e ∈ before, e.Aside ∧ e.start? = none)
      (hduring : ∀ e ∈ during, e.Aside) : Holds es (some true)

def Guarded (w₀ w : World σ) : Prop := ∃ es, w.events = w₀.events ++ es ∧ Holds es w.holding.stash

theorem Fresh.guarded (hw : Fresh w₀ w) : Guarded w₀ w := by
  obtain ⟨es, he, hes⟩ := hw.extends_
  refine ⟨es, he, .clear (by rw [hw.stash]; simp) ?_⟩
  intro e hm
  exact ⟨(hes e hm).1.reportsStash, (hes e hm).1.2⟩

theorem Fresh.steady (hw : Fresh w₀ w) (hs : Steady (fun e => e.Aside ∧ e.start? = none) w w') :
    Fresh w₀ w' := ⟨hs.stash.trans hw.stash, hw.extends_.trans hs.extends_⟩

theorem Holds.append {es new : List Event} {stash : Option Bool} (hh : Holds es stash)
    (hnew : ∀ e ∈ new, e.Aside) : Holds (es ++ new) stash := by
  cases hh with
  | clear hs hes =>
    refine .clear hs ?_
    intro e he
    rcases List.mem_append.1 he with he | he
    · exact hes e he
    · exact ⟨(hnew e he).reportsStash, (hnew e he).2⟩
  | kept before during stash hes hstash hbefore hduring =>
    refine .kept before (during ++ new) stash (by simp [hes]) hstash hbefore ?_
    intro e he
    rcases List.mem_append.1 he with he | he
    · exact hduring e he
    · exact hnew e he

theorem Guarded.steady (hw : Guarded w₀ w) (hs : Steady Event.Aside w w') : Guarded w₀ w' := by
  obtain ⟨es, he, hh⟩ := hw
  obtain ⟨new, he', hnew⟩ := hs.extends_
  exact ⟨es ++ new, by rw [he', he, List.append_assoc], hs.stash ▸ hh.append hnew⟩

/-- What git says of a stash is what the run holds on to. -/
theorem Git.go_stash {g : Git} {out : String} {w₁ : World σ}
    (hask : (g.ask Git.stashArgs).go h w = (.ok out, w₁)) :
    ∃ w', (g.stash).go h w = (.ok (Git.reportsStash out), w') ∧ Idle w₁ w' := by
  rw [Git.stash, go_bind_ok hask]
  split
  · next hreports =>
    obtain ⟨_, w', hdebug, -, hw'⟩ := yields_debug (h := h) "Stashed unstaged changes" w₁
    exact ⟨w', by rw [go_bind_ok hdebug, hreports]; rfl, hw'⟩
  · next hreports =>
    obtain ⟨_, w', hdebug, -, hw'⟩ := yields_debug (h := h) "No unstaged changes to stash" w₁
    exact ⟨w', by rw [go_bind_ok hdebug, Bool.eq_false_iff.2 hreports]; rfl, hw'⟩

theorem holds_asked {es : List Event} {out : String} (hes : ∀ e ∈ es, e.Aside ∧ e.start? = none) :
    Holds (es ++ [.asked Git.stashArgs (.ok out)]) (some (Git.reportsStash out)) := by
  cases hreports : Git.reportsStash out with
  | true =>
    exact .kept es [] (.asked Git.stashArgs (.ok out)) rfl (by simp [Event.reportsStash, hreports]) hes
      (by simp)
  | false =>
    refine .clear (by simp) ?_
    intro e hm
    rcases List.mem_append.1 hm with hm | hm
    · exact ⟨(hes e hm).1.reportsStash, (hes e hm).1.2⟩
    · rw [List.mem_singleton.1 hm]
      exact ⟨by simp [Event.reportsStash, hreports], rfl⟩

section Scripted

variable {respond : List String → Path → FileTree → σ → Except String String × FileTree × σ}
  (hgit : h.git = some respond)

include hgit

/-- Git that is answered for leaves nothing behind but the question. -/
theorem Git.go_ask (g : Git) (args : List String) (w : World σ) :
    ∃ outcome w', (g.ask args).go h w = (outcome, w') ∧ w'.holding = w.holding ∧
      w'.events = w.events ++ [.asked args outcome] := by
  have hanswer : ∃ outcome w₁, (g.answer args).go h w = (outcome, w₁) ∧ w₁.holding = w.holding ∧
      w₁.events = w.events := by
    rw [answer, go_bind_ok (go_host h w), hgit]
    exact ⟨_, _, go_ofExcept _ _ _ _, rfl, rfl⟩
  obtain ⟨outcome, w₁, hgo, hheld, he⟩ := hanswer
  refine ⟨outcome, w₁.record (.asked args outcome), ?_, hheld, by rw [events_record, he]⟩
  have hfirst := go_attempt (g.answer args) h w
  rw [hgo] at hfirst
  rw [ask, go_bind_ok hfirst, go_bind_ok (go_record _ h w₁), go_ofExcept]
  cases outcome <;> rfl

theorem tolerates_aside : Tolerates h fun e => e.Aside ∧ e.start? = none where
  note e he := ⟨Event.aside_of_isQuestion (Event.isQuestion_of_isNote he), Event.start?_of_isNote he⟩
  git hnone := by
    rw [hgit] at hnone
    cases hnone

theorem fresh_repositoryRoot (s : Selector) (hw : Fresh w₀ w) :
    Fresh w₀ ((s.repositoryRoot).go h w).2 :=
  hw.steady (s.steady_repositoryRoot (tolerates_aside hgit)
    (fun _ _ ha => ⟨Event.aside_asked ha, rfl⟩) w)

theorem guarded_filesReported (s : Selector) (entries : List String) (hw : Guarded w₀ w) :
    Guarded w₀ ((s.filesReported entries).go h w).2 :=
  hw.steady ((s.steady_filesReported (tolerates_aside hgit)
    (fun _ _ ha => ⟨Event.aside_asked ha, rfl⟩) entries w).mono fun _ he => he.1)

/-- Asking for a stash, and holding on to what git said. -/
theorem guarded_stash (s : Selector) (hw : Fresh w₀ w) :
    Guarded w₀ ((do
      let active ← s.git.stash
      Selector.hold ({ · with stash := some active }) : Run σ Unit).go h w).2 := by
  obtain ⟨outcome, w₁, hask, hheld, he⟩ := Git.go_ask hgit s.git Git.stashArgs w
  obtain ⟨es, hes, hfresh⟩ := hw.extends_
  have hw₁ : w₁.events = w₀.events ++ (es ++ [.asked Git.stashArgs outcome]) := by
    rw [he, hes, List.append_assoc]
  cases outcome with
  | error e =>
    have hstash : (s.git.stash).go h w = (.error e, w₁) := go_bind_error hask _
    rw [go_bind_error hstash]
    refine ⟨_, hw₁, .clear (by rw [hheld, hw.stash]; simp) ?_⟩
    intro e hm
    rcases List.mem_append.1 hm with hm | hm
    · exact ⟨(hfresh e hm).1.reportsStash, (hfresh e hm).1.2⟩
    · rw [List.mem_singleton.1 hm]
      exact ⟨rfl, rfl⟩
  | ok out =>
    obtain ⟨w₂, hstash, hw₂⟩ := Git.go_stash hask
    obtain ⟨notes, he₂, hnotes⟩ := hw₂.notes
    rw [go_bind_ok hstash]
    refine ⟨es ++ [.asked Git.stashArgs (.ok out)] ++ notes, ?_, (holds_asked hfresh).append ?_⟩
    · rw [← List.append_assoc, ← hw₁]
      exact he₂
    · exact fun e hm => Event.aside_of_isQuestion (Event.isQuestion_of_isNote (hnotes e hm))

theorem guarded_stashUnstaged (s : Selector) (hw : Fresh w₀ w) :
    Guarded w₀ ((s.stashUnstaged).go h w).2 := by
  have hidle {α : Type} {act : Run σ α} (hact : Moves h Idle act) {w : World σ} (hw : Fresh w₀ w) :
      Fresh w₀ (act.go h w).2 := hw.steady ((tolerates_aside hgit).idle hact w)
  refine bind_leads (fresh_repositoryRoot hgit s hw) (fun _ => Fresh.guarded) fun top w hw => ?_
  refine bind_leads (hidle (idle_askTree _ _) hw) (fun _ => Fresh.guarded) fun merging w hw => ?_
  split
  · exact (hidle (idle_debug _) hw).guarded
  · have hholding : Selector.holding.go h w = (.ok w.holding, w) := rfl
    rw [go_bind_ok hholding, hw.stash]
    exact guarded_stash hgit s hw

theorem guarded_candidates (s : Selector) (requested : List Path) (hw : Fresh w₀ w) :
    Guarded w₀ ((s.candidates requested).go h w).2 := by
  have hidle {α : Type} {act : Run σ α} (hact : Moves h Idle act) : Guarded w₀ (act.go h w).2 :=
    (hw.steady ((tolerates_aside hgit).idle hact w)).guarded
  have hasked {args : List String} (ha : args.head? ≠ some "stash") {w : World σ}
      (hw : Guarded w₀ w) :
      Guarded w₀ ((Git.linesOf <$> s.git.ask args >>= s.filesReported).go h w).2 := by
    refine bind_leads (hw.steady ?_) (fun _ hw => hw) fun entries w hw =>
      guarded_filesReported hgit s entries hw
    exact ((s.git.steady_ask (tolerates_aside hgit) fun _ => ⟨Event.aside_asked ha, rfl⟩).map _ w).mono
      fun _ he => he.1
  unfold Selector.candidates
  split
  · exact hidle (s.idle_walkFiles _)
  · exact hidle (s.idle_explicitFiles _)
  · exact hasked (by decide) hw.guarded
  · exact hasked (by simp) hw.guarded
  · exact hasked (by decide) hw.guarded
  · exact bind_leads (guarded_stashUnstaged hgit s hw) (fun _ hw => hw) fun _ w hw =>
      hasked (by decide) hw

theorem guarded_select (s : Selector) (requested : List Path) :
    Moves h (fun w w' => Fresh w₀ w → Guarded w₀ w') (s.select requested) := by
  have hrest : Moves h (fun w w' => Fresh w₀ w → Guarded w₀ w') (do
      debug ("Selecting " ++ s.mode.describe)
      let files := Path.sortedSet (← s.candidates requested)
      if files ≠ [] then return some files
      else if s.mode.usesGit then return none
      else fail (.selection (.allExcluded s.mode))) := by
    intro w hw
    have hdebug : Fresh w₀ ((Run.debug ("Selecting " ++ s.mode.describe)).go h w).2 :=
      hw.steady ((tolerates_aside hgit).idle (idle_debug _) w)
    refine bind_leads hdebug (fun _ => Fresh.guarded) fun _ w hw => ?_
    refine bind_leads (guarded_candidates hgit s requested hw) (fun _ hw => hw) fun found w hw => ?_
    have hends : Moves h (Steady Event.Aside) (if Path.sortedSet found ≠ [] then
        pure (some (Path.sortedSet found)) else if s.mode.usesGit then pure none
        else fail (.selection (.allExcluded s.mode))) :=
      (moves_pure _).ite ((moves_pure _).ite (moves_fail _))
    exact hw.steady (hends w)
  exact Moves.ite (fun w hw => hw.guarded) hrest

end Scripted

namespace Pass

theorem steady_runTarget (a : Action) (f : Filter) (scope : Filter.Scope) (t : Target) :
    Moves h (Steady (·.isQuestion = false)) (runTarget a f scope t) := by
  have hnote : ∀ e : Event, e.isNote = true → e.isQuestion = false :=
    fun _ => Event.isQuestion_of_isNote
  have hattempt : Moves h (Steady (·.isQuestion = false)) (attemptTarget a f scope t) := by
    cases a with
    | lint => exact (Filter.steady_lint hnote (fun _ _ => rfl) _ _ _).bind fun _ => moves_pure _
    | tidy => exact (Filter.steady_tidy hnote (fun _ _ => rfl) _ _ _).bind fun _ => moves_pure _
  refine hattempt.attempt.bind fun r => ?_
  split
  · exact moves_pure _
  · split
    · exact moves_fail _
    · exact ((idle_debug _).mono fun _ _ hw => hw.steady hnote).bind fun _ => moves_pure _

theorem steady_runFilters (a : Action) (r : Reporter) (workers : Int) (files : List Path)
    (fs : List Filter) :
    Moves h (Steady (·.isQuestion = false)) (runFilters a r workers files fs) := by
  have hidle {α : Type} {act : Run σ α} (hact : Moves h Idle act) :
      Moves h (Steady (·.isQuestion = false)) act :=
    hact.mono fun _ _ hw => hw.steady fun _ => Event.isQuestion_of_isNote
  have htargets (f : Filter) (scope : Filter.Scope) (targets : List Target) :
      Moves h (Steady (·.isQuestion = false)) (runTargets a f scope targets) :=
    (Moves.mapM (fun t => ((steady_runTarget a f scope t).bind fun _ => moves_pure _).attempt) _).bind
      fun _ => (Moves.mapM (fun _ => moves_ofExcept _ _) _).bind fun _ => moves_pure _
  have hfilter (f : Filter) :
      Moves h (Steady (·.isQuestion = false)) (runFilter a r workers f files (Group.make files)) := by
    refine (hidle (f.yields_resolveScope files).idle).bind fun scope =>
      (hidle yields_now.idle).bind fun started => ?_
    have hrest := (htargets f scope (Target.pathMap scope files (Group.make files))).bind fun results =>
      hidle (yields_conclude a r f scope started results).idle
    exact ((moves_fail _).bind fun _ => hrest).ite hrest
  induction fs with
  | nil => exact moves_pure _
  | cons f rest ih =>
    exact (hidle (idle_announce f)).bind fun _ => (hfilter f).bind fun _ => ih.bind fun _ => moves_pure _

end Pass

theorem guarded_overSelection {respond : List String → Path → FileTree → σ →
    Except String String × FileTree × σ} (hgit : h.git = some respond) (p : Pass) (r : Reporter)
    (workers : Int) (fs : List Filter) (s : Selector) (hw : Fresh w₀ w) :
    Guarded w₀ ((p.overSelection r workers fs s).go h w).2 := by
  have haside {α : Type} {act : Run σ α} (hact : Moves h (Steady (·.isQuestion = false)) act)
      {w : World σ} (hw : Guarded w₀ w) : Guarded w₀ (act.go h w).2 :=
    hw.steady ((hact w).mono fun _ => Event.aside_of_isQuestion)
  refine bind_leads (guarded_select hgit s p.paths w hw) (fun _ hw => hw) fun chosen w hw => ?_
  cases chosen with
  | none =>
    have hsay := (r.yields_say (h := h) none (r.glyphs.empty ++ " " ++ noFilesMessage)).idle.mono
      fun _ _ hw => hw.steady fun _ => Event.isQuestion_of_isNote
    exact haside (hsay.bind fun _ => moves_pure _) hw
  | some files =>
    exact haside ((steady_runFilters p.action r workers files fs).bind fun _ => moves_pure _) hw

theorem Holds.bracketed {es : List Event} {stash : Option Bool} (hh : Holds es stash)
    (hs : stash ≠ some true) : StashBracketed es := by
  cases hh with
  | clear _ hes => exact .unreported hes
  | kept => exact absurd rfl hs

/-- What a stash that is held comes to. -/
theorem Holds.restored {es notes : List Event} {outcome : Except Failure String}
    (hh : Holds es (some true)) (hnotes : ∀ e ∈ notes, e.isNote = true) :
    StashBracketed (es ++ .asked Git.popArgs outcome :: notes) := by
  cases hh with
  | clear hs => exact absurd rfl hs
  | kept before during stash hes hstash hbefore hduring =>
    refine .reported before during notes stash (.asked Git.popArgs outcome) (by rw [hes]) hstash rfl
      hbefore hduring ?_
    intro e hm
    exact ⟨Event.isQuestion_of_isNote (hnotes e hm), Event.start?_of_isNote (hnotes e hm)⟩

section Scripted

variable {respond : List String → Path → FileTree → σ → Except String String × FileTree × σ}
  (hgit : h.git = some respond)

include hgit

/-- A stash is asked back once; then there is nothing left but to say that it did not work. -/
theorem Git.release_leaves (g : Git) (w : World σ) :
    ∃ outcome, Extends (·.isNote) (w.record (.asked Git.popArgs outcome)) ((g.release true).go h w).2 := by
  obtain ⟨outcome, w₁, hask, -, he⟩ := Git.go_ask hgit g Git.popArgs w
  have hpop : (Run.attempt g.pop).go h w = (.ok (outcome.map fun _ => ()), w₁) := by
    rw [go_attempt, Git.pop, go_bind, hask]
    cases outcome <;> rfl
  refine ⟨outcome, ?_⟩
  have hsame : Extends (·.isNote) (w.record (.asked Git.popArgs outcome)) w₁ :=
    ⟨[], by rw [he, events_record, List.append_nil], by simp⟩
  rw [Git.release, if_pos rfl, go_bind_ok hpop]
  refine hsame.trans ?_
  split
  · exact Extends.refl w₁
  · exact ((idle_log _ _) w₁).notes
  · exact Extends.refl w₁

theorem bracketed_close (s : Selector) (hw : Guarded w₀ w) :
    ∃ es, (s.close.go h w).2.events = w₀.events ++ es ∧ StashBracketed es := by
  obtain ⟨es, he, hh⟩ := hw
  have hholding : Selector.holding.go h w = (.ok w.holding, w) := rfl
  rw [Selector.close, go_bind_ok hholding]
  cases hstash : w.holding.stash with
  | none =>
    rw [hstash] at hh
    exact ⟨es, he, hh.bracketed (by simp)⟩
  | some active =>
    rw [hstash] at hh
    cases active with
    | false => exact ⟨es, he, hh.bracketed (by simp)⟩
    | true =>
      let w₁ : World σ := { w with holding := { w.holding with stash := some false } }
      have hheld : (Selector.hold fun held => { held with stash := some false }).go h w = (.ok (), w₁) :=
        rfl
      obtain ⟨outcome, notes, hnew, hnotes⟩ := s.git.release_leaves hgit w₁
      refine ⟨es ++ .asked Git.popArgs outcome :: notes, ?_, hh.restored hnotes⟩
      rw [events_record, show w₁.events = w₀.events ++ es from he] at hnew
      have hends : w₀.events ++ (es ++ .asked Git.popArgs outcome :: notes) =
          ((s.git.release true).go h w₁).2.events := by
        rw [hnew]
        simp
      rw [hends, go_bind_ok hheld]
      exact bind_leads (I := fun w => w.events = ((s.git.release true).go h w₁).2.events) rfl
        (fun _ hw => hw) fun _ _ hw => hw

end Scripted

/-- Every pass brackets its commands: whatever git answers, whatever the commands do, whether the pass
ends with a value or fails. -/
theorem run_stashBracketed (p : Pass) (l : Config.Loaded) (r : Reporter) (workers : Int) (cwd : Path)
    (h : Host σ) (w : World σ) {respond : List String → Path → FileTree → σ →
      Except String String × FileTree × σ} (hgit : h.git = some respond) :
    ∃ es, ((p.run l r workers cwd).go h w).2.events = w.events ++ es ∧ StashBracketed es := by
  have hquiet {w₁ : World σ} (hw₁ : Idle w w₁) :
      ∃ es, w₁.events = w.events ++ es ∧ StashBracketed es := by
    obtain ⟨notes, he, hnotes⟩ := hw₁.notes
    refine ⟨notes, he, .unreported ?_⟩
    intro e hm
    have haside := Event.aside_of_isQuestion (Event.isQuestion_of_isNote (hnotes e hm))
    exact ⟨haside.reportsStash, haside.2⟩
  rcases p.go_run_cases l r workers cwd h w with
    ⟨e, w₁, hw₁, hfail, -⟩ | ⟨fs, s, w₁, hw₁, -, -, hgo, -⟩
  · rw [hfail]
    exact hquiet hw₁
  · rw [hgo, go_ensuring]
    obtain ⟨notes, he, hnotes⟩ := hw₁.notes
    have hfresh : Fresh w { w₁ with holding := {} } := by
      refine ⟨rfl, notes, he, ?_⟩
      intro e hm
      exact ⟨Event.aside_of_isQuestion (Event.isQuestion_of_isNote (hnotes e hm)),
        Event.start?_of_isNote (hnotes e hm)⟩
    exact bracketed_close hgit s (guarded_overSelection hgit p r workers fs s hfresh)

namespace Sample

/-- The same place, where git finds nothing to put aside. -/
def unchanged : Script :=
  { script with git := { args := Git.stashArgs, outcome := .ok "No local changes to save" } :: script.git }

def worldAfter (script : Script) : World Script :=
  ((pass.run loaded {} 1 root).go host (world script)).2

end Sample

open Sample in
theorem run_stashBracketed_staged : host.git = some Script.answerGit ∧
    ((worldAfter script).events.any (·.reportsStash) = true ∧ (worldAfter script).starts.length = 2 ∧
      ∃ es, (worldAfter script).events = (world script).events ++ es ∧ StashBracketed es) ∧
    (worldAfter unchanged).events.any (·.isStash) = true ∧
    (worldAfter unchanged).events.any (·.reportsStash) = false ∧
    (worldAfter unchanged).events.any (·.isPop) = false ∧ (worldAfter unchanged).starts.length = 2 ∧
    ∃ es, (worldAfter unchanged).events = (world unchanged).events ++ es ∧ StashBracketed es := by
  have hbracketed (script : Script) : ∃ es,
      (worldAfter script).events = (world script).events ++ es ∧ StashBracketed es :=
    run_stashBracketed pass loaded {} 1 root host (world script) rfl
  refine ⟨rfl, ⟨?_, ?_, hbracketed script⟩, ?_, ?_, ?_, ?_, hbracketed unchanged⟩
  all_goals decide +kernel

end LintRunner
