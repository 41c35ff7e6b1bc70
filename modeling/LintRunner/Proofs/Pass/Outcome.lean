import LintRunner.Proofs.Pass.Attempts
import LintRunner.Proofs.Pass.Targets

/-! What a pass comes to when every target keeps its failures to itself: all targets of all filters
are attempted, and the summary has one entry for each that went wrong, in the order of the attempts. It
gets no further than a filter whose settings cannot be written. -/

namespace LintRunner

open World Run Pass

variable {σ : Type} {h : Host σ} {w w' : World σ}

/-- The text of an error that is a target's own: of its command, of its filter, or of the system. -/
def Failure.ownText? : Failure → Option String
  | .exec e => some e.message
  | .filter e => some e.message
  | .os e => some e.message
  | _ => none

theorem Pass.recorded?_eq (e : Failure) : recorded? e = e.ownText? := by
  cases e <;> rfl

namespace Attempt

variable (h) (a : Action) (x : Attempt σ)

/-- The target ended normally, or in an error of its own. -/
def contained : Bool :=
  match x.ending h a with
  | .ok _ => true
  | .error e => e.ownText?.isSome

/-- What went wrong, if anything did: an error, or a linter that is not content. -/
def reason? : Option String :=
  match x.ending h a with
  | .error e => e.ownText?
  | .ok (some (.linted o)) => if o.passed then none else some "linting failed"
  | .ok _ => none

/-- The files of the target that the filter is for, or else the target itself. -/
def blamed : List Path :=
  let matching := x.target.files.filter x.filter.covers
  if x.scope = .files ∨ matching = [] then [x.target.path] else matching

def complaint? : Option FailedTarget :=
  (x.reason? h a).map fun reason => ⟨x.filter.configKey, x.blamed, reason⟩

theorem failedPaths_eq : failedPaths x.filter x.scope x.target = x.blamed := by
  unfold failedPaths blamed
  by_cases hs : x.scope = .files
  · simp [hs]
  · cases hm : x.target.files.filter x.filter.covers <;> simp [hs]

/-- No target gives a failure for its result; only an error becomes one. -/
theorem ending_ne_failed (reason : String) : x.ending h a ≠ .ok (some (.failed reason)) := by
  have hgives : Gives h (fun r => ∀ reason, r ≠ some (Result.failed reason))
      (attemptTarget a x.filter x.scope x.target) := by
    cases a with
    | lint => exact .after _ fun o => gives_pure (by cases o <;> simp)
    | tidy => exact .after _ fun o => gives_pure (by cases o <;> simp)
  intro hend
  exact hgives x.begun _ hend reason rfl

theorem kept_of_contained (hx : x.contained h a = true) :
    ∃ r, x.kept h a = .ok r ∧ r.bind (failure? x.filter x.scope x.target) = x.complaint? h a := by
  unfold contained at hx
  unfold kept complaint? reason?
  cases hend : x.ending h a with
  | error e =>
    rw [hend] at hx
    obtain ⟨reason, hreason⟩ := Option.isSome_iff_exists.1 hx
    exact ⟨some (.failed reason), by simp [recorded?_eq, hreason],
      by simp [hreason, failure?, failedPaths_eq]⟩
  | ok r =>
    refine ⟨r, rfl, ?_⟩
    rcases r with _ | (o | o | reason)
    · rfl
    · by_cases hp : o.passed = true
      · simp [failure?, hp]
      · simp [failure?, hp, failedPaths_eq]
    · rfl
    · exact absurd hend (x.ending_ne_failed h a reason)

end Attempt

namespace Round

variable (a : Action) (x : Round σ)

/-- One for each target that went wrong, in the order of the attempts. -/
def complaints (h : Host σ) (a : Action) (x : Round σ) : List FailedTarget :=
  (x.attempts h a).filterMap (·.complaint? h a)

/-- Where all targets are contained the filter fails for those that complain, and no other. -/
theorem results_of_contained (hx : ∀ t ∈ x.attempts h a, t.contained h a = true) :
    ∃ results, x.results h a = .ok results ∧
      results.filterMap (fun (t, result) => failure? x.filter x.scope t result) =
        x.complaints h a := by
  have hmem : ∀ t ∈ x.attempts h a, t.filter = x.filter ∧ t.scope = x.scope := fun t ht =>
    ⟨(of_mem_attempts h a x.filter x.scope ht).1, (of_mem_attempts h a x.filter x.scope ht).2.1⟩
  unfold results complaints
  generalize x.attempts h a = ts at hx hmem
  induction ts with
  | nil => exact ⟨[], rfl, rfl⟩
  | cons t rest ih =>
    obtain ⟨results, hres, hcomplaints⟩ := ih (fun t ht => hx t (by simp [ht])) fun t ht =>
      hmem t (by simp [ht])
    obtain ⟨r, hr, hfailure⟩ := t.kept_of_contained h a (hx t (by simp))
    obtain ⟨hf, hs⟩ := hmem t (by simp)
    rw [hf, hs] at hfailure
    rw [List.map_cons, hr, List.mapM_cons]
    cases hrest : (rest.map fun t : Attempt σ => (t.kept h a).map (t.target, ·)).mapM id with
    | error e =>
      rw [hrest] at hres
      cases hres
    | ok ends =>
      rw [hrest] at hres
      cases hres
      cases r with
      | none => exact ⟨_, rfl, by simpa [← hfailure] using hcomplaints⟩
      | some result =>
        refine ⟨_, rfl, ?_⟩
        simp only [List.filterMap_cons, Option.map_some, ← hfailure, Option.bind_some, hcomplaints]

end Round

/-- The entries of a summary: a complaint for each target that went wrong. -/
def complaintsOf (h : Host σ) (a : Action) (turns : List (Round σ)) : List FailedTarget :=
  turns.flatMap (·.complaints h a)

theorem complaintsOf_ne_nil (h : Host σ) (a : Action) (turns : List (Round σ)) :
    complaintsOf h a turns ≠ [] ↔ ∃ x ∈ turns, ∃ t ∈ x.attempts h a, (t.reason? h a).isSome := by
  simp [complaintsOf, Round.complaints, Attempt.complaint?, List.flatMap_eq_nil_iff,
    List.filterMap_eq_nil_iff, Option.isSome_iff_ne_none]

/-- All settings can be written but a threshold with too many digits. -/
theorem Filter.describe?_eq_none_iff (f : Filter) : f.describe? = none ↔
    ∃ a n hn, f.params.invoke = .adaptive a n hn ∧ Number.leastBeyond Number.mostDigits ≤ n := by
  unfold Filter.describe? Filter.Invoke.describe?
  cases f.params.invoke with
  | fixed s => simp
  | adaptive a n hn =>
    simp only [Number.written?, Int.natAbs_natCast, Option.map_eq_none_iff, ite_eq_left_iff, reduceCtorEq,
      imp_false, not_not, Invoke.adaptive.injEq]
    exact ⟨fun hlong => ⟨a, n, hn, ⟨rfl, rfl⟩, hlong⟩, fun ⟨_, _, _, ⟨_, hn⟩, hlong⟩ => hn ▸ hlong⟩

/-- Filters whose settings can be written have their turns, and what they come to is what their targets
complain of. -/
theorem go_runFilters_append {a : Action} {r : Reporter} {workers : Int} {files : List Path}
    {front : List Filter} (hworkers : 0 < workers) (hwritten : ∀ f ∈ front, f.describe? ≠ none)
    (hall : ∀ x ∈ rounds h a r workers files w front, ∀ t ∈ x.attempts h a, t.contained h a = true)
    (rest : List Filter) :
    ∃ w', w'.starts = w.starts ++ (rounds h a r workers files w front).flatMap (·.starts h a) ∧
      (runFilters a r workers files (front ++ rest)).go h w =
        ((complaintsOf h a (rounds h a r workers files w front) ++ ·) <$>
          runFilters a r workers files rest).go h w' := by
  induction front generalizing w with
  | nil => exact ⟨w, by simp [rounds], by simp [rounds, complaintsOf]⟩
  | cons f front ih =>
    rw [List.forall_mem_cons] at hwritten
    rcases go_announce f h w with ⟨hnone, -⟩ | ⟨w₁, -, hw₁, hnote⟩
    · exact absurd hnone hwritten.1
    have hopened := (Round.idle_opened (h := h) files w₁ f).starts
    simp only [rounds, hnote, List.mem_cons, forall_eq_or_imp] at hall
    obtain ⟨results, hres, hcomplaints⟩ := (Round.opened h files w₁ f).results_of_contained a hall.1
    rcases go_runFilter a r workers f files h w₁ with ⟨e, hnone, -⟩ | ⟨w₂, hw₂, hends⟩
    · omega
    · have hturn : (runFilter a r workers f files (Group.make files)).go h w₁ =
          (.ok ((Round.opened h files w₁ f).complaints h a), w₂) := by
        rw [hends, hres, ← hcomplaints]
        rfl
      have hstarts : w₂.starts = w.starts ++ (Round.opened h files w₁ f).starts h a := by
        rw [hw₂.starts, Round.left_starts, hopened, hw₁.starts]
      rw [hturn] at hall
      obtain ⟨w₃, hw₃, hrest⟩ := ih hwritten.2 hall.2
      refine ⟨w₃, ?_, ?_⟩
      · simp only [rounds, hnote, hturn, List.flatMap_cons, hw₃, hstarts, List.append_assoc]
      · rw [List.cons_append, runFilters, go_bind_ok hnote, go_bind_ok hturn, go_bind, hrest]
        simp only [complaintsOf, rounds, hnote, hturn, List.flatMap_cons, go_map]
        cases ((runFilters a r workers files rest).go h w₃).1 with
        | error e => rfl
        | ok failed => simp [Except.map]

/-- The entry about a target that went wrong: a sign, the key of its filter and the files that are blamed,
and on a line of its own what went wrong. -/
def FailedTarget.bullet (ascii : Bool) (c : FailedTarget) : List String :=
  ["  " ++ (if ascii then "*" else "▶") ++ " [" ++ c.configKey ++ "] failed for ["
      ++ " ".intercalate (c.paths.map (·.text)) ++ "]",
    "    " ++ c.reason]

namespace Pass

/-- What stands above so many entries. -/
def heading (a : Action) (entries : Nat) : String :=
  (if 1 < entries then "Errors" else "Error") ++ " when "
    ++ (match a with
      | .lint => "linting"
      | .tidy => "tidying")
    ++ " files:"

theorem go_run_of_opening {p : Pass} {l : Config.Loaded} {r : Reporter} {workers : Int} {cwd : Path}
    {fs : List Filter} {s : Selector} {files : List Path} {failed : Except Failure (List FailedTarget)}
    {w₁ w₂ : World σ} (hopening : (p.opening l r cwd).go h w = (.ok (fs, s, some files), w₁))
    (hfilters : (runFilters p.action r workers files fs).go h w₁ = (failed, w₂))
    (hclose : (s.close.go h ((runFilters p.action r workers files fs).go h w₁).2).1 = .ok ()) :
    (p.run l r workers cwd).go h w = (failed.map (exitOf p.action r), (s.close.go h w₂).2) := by
  rw [hfilters] at hclose
  have hclosed : s.close.go h w₂ = (.ok (), (s.close.go h w₂).2) := by rw [← hclose]
  rcases p.go_run_cases l r workers cwd h w with
    ⟨e, w', -, -, hfail⟩ | ⟨fs', s', w', -, -, -, hgo, hopens⟩
  · rw [hfail] at hopening
    cases hopening
  · rw [hopens, go_map] at hopening
    rcases hselect : (s'.select p.paths).go h { w' with holding := {} } with ⟨e | chosen, w''⟩
    · rw [hselect] at hopening
      cases hopening
    · rw [hselect] at hopening
      cases hopening
      have hover : (p.overSelection r workers fs s).go h { w' with holding := {} } =
          (failed.map (exitOf p.action r), w₂) := by
        rw [overSelection, go_bind_ok hselect]
        dsimp only
        rw [go_bind, hfilters]
        cases failed <;> rfl
      rw [hgo, go_ensuring, hover, hclosed]

/-- A pass over `files` that left nothing out, from the first turn on. -/
structure Complete (h : Host σ) (a : Action) (r : Reporter) (fs : List Filter) (files : List Path)
    (turns : List (Round σ)) (w w' : World σ) (exit : Exit) : Prop where
  filters : turns.map (·.filter) = fs
  targets : ∀ x ∈ turns, (x.attempts h a).map (·.target) =
    Target.pathMap (x.filter.scopeOf files) files (Group.make files)
  ascending : ∀ x ∈ turns, Path.Ascending ((x.attempts h a).map (·.target.path))
  starts : ∃ after, w'.starts = w.starts ++ turns.flatMap (·.starts h a) ++ after ∧
    ∀ s ∈ after, h.StartsGit s
  failures_iff : exit.status = .failures ↔
    ∃ x ∈ turns, ∃ t ∈ x.attempts h a, (t.reason? h a).isSome
  otherwise : exit.status ≠ .failures → exit = { status := .ok }
  summary : exit.status = .failures → exit.error = some ("\n".intercalate
    (heading a (complaintsOf h a turns).length ::
      (complaintsOf h a turns).flatMap (·.bullet r.ascii)))

theorem failureLines_eq (r : Reporter) (c : FailedTarget) : r.failureLines c = c.bullet r.ascii := by
  cases hascii : r.ascii <;> simp [Reporter.failureLines, FailedTarget.bullet, Reporter.glyphs, hascii,
    Glyphs.plain, Glyphs.pictures]

theorem summary_eq (r : Reporter) (a : Action) (failed : List FailedTarget) :
    r.summary a.noun failed = "\n".intercalate
      (heading a failed.length :: failed.flatMap (·.bullet r.ascii)) := by
  have hheading : "Error" ++ (if 1 < failed.length then "s" else "") ++ " when " ++ a.noun ++ " files:" =
      heading a failed.length := by
    unfold heading
    cases a <;> split <;> decide
  rw [Reporter.summary, hheading, funext (failureLines_eq r)]

theorem complete_exitOf {a : Action} {r : Reporter} {fs : List Filter} {files : List Path}
    {turns : List (Round σ)} (hfilters : turns.map (·.filter) = fs)
    (hturns : ∀ x ∈ turns, x.files = files) (hfiles : Path.Ascending files)
    (hrel : ∀ p ∈ files, p.anchor = .relative)
    (hstarts : ∃ after, w'.starts = w.starts ++ turns.flatMap (·.starts h a) ++ after ∧
      ∀ s ∈ after, h.StartsGit s) :
    Complete h a r fs files turns w w' (exitOf a r (complaintsOf h a turns)) := by
  have htargets : ∀ x ∈ turns, (x.attempts h a).map (·.target) =
      Target.pathMap (x.filter.scopeOf files) files (Group.make files) := by
    intro x hx
    rw [Round.attempts, targets_attempts, Round.targets, Round.scope, hturns x hx]
  have hiff := complaintsOf_ne_nil h a turns
  refine ⟨hfilters, htargets, ?_, hstarts, ?_, ?_, ?_⟩
  · intro x hx
    have hpaths := Target.ascending_paths (x.filter.scopeOf files) hfiles hrel
    rwa [← htargets x hx, List.map_map] at hpaths
  · rw [← hiff]
    cases complaintsOf h a turns <;> simp [exitOf]
  · cases complaintsOf h a turns <;> simp [exitOf]
  · rw [← summary_eq]
    cases complaintsOf h a turns <;> simp [exitOf]

/-- Whatever its commands do, a pass whose targets keep their failures to themselves attempts every
target of every filter, fails just if one of them went wrong, and names each that did; as long as no
filter has a threshold with too many digits to be written. -/
theorem run_complete {p : Pass} {l : Config.Loaded} {r : Reporter} {workers : Int} {cwd : Path}
    {h : Host σ} {w w₁ : World σ} {fs : List Filter} {s : Selector} {files : List Path}
    (hworkers : 0 < workers)
    (hopening : (p.opening l r cwd).go h w = (.ok (fs, s, some files), w₁))
    (hwritten : ∀ f ∈ fs, ∀ a n hn, f.params.invoke = .adaptive a n hn →
      n < Number.leastBeyond Number.mostDigits)
    (hcontained : ∀ x ∈ rounds h p.action r workers files w₁ fs, ∀ t ∈ x.attempts h p.action,
      t.contained h p.action = true)
    (hclose : (s.close.go h ((runFilters p.action r workers files fs).go h w₁).2).1 = .ok ()) :
    p.filters l = .ok fs ∧ ∃ exit w₂, (p.run l r workers cwd).go h w = (.ok exit, w₂) ∧
      Complete h p.action r fs files (rounds h p.action r workers files w₁ fs) w₁ w₂ exit := by
  obtain ⟨hfs, -, hchosen⟩ := opening_ok hopening
  have hdescribed : ∀ f ∈ fs, f.describe? ≠ none := by
    intro f hf hnone
    obtain ⟨a, n, hn, hinvoke, hlong⟩ := f.describe?_eq_none_iff.1 hnone
    exact absurd (hwritten f hf a n hn hinvoke) (Nat.not_lt.2 hlong)
  obtain ⟨w₂, hw₂, hfilters⟩ := go_runFilters_append hworkers hdescribed hcontained []
  rw [List.append_nil, runFilters, map_pure, List.append_nil, go_pure] at hfilters
  obtain ⟨after, hafter, hgit⟩ := s.starts_close h w₂
  refine ⟨hfs, _, _, go_run_of_opening hopening hfilters hclose, ?_⟩
  refine complete_exitOf (filters_rounds h p.action r workers files w₁ fs)
    (fun x hx => (of_mem_rounds h p.action r workers files hx).2) (hchosen files rfl).ascending
    (fun q hq => ((hchosen files rfl).eligible q hq).relative) ⟨after, ?_, hgit⟩
  rw [hafter, hw₂]

/-- The pass gets files, its targets are contained and its selection can be closed. -/
def runsThrough (p : Pass) (l : Config.Loaded) (r : Reporter) (workers : Int) (cwd : Path) (h : Host σ)
    (w : World σ) : Bool :=
  match (p.opening l r cwd).go h w with
  | (.ok (fs, s, some files), w₁) =>
    (rounds h p.action r workers files w₁ fs).all
        (fun x => (x.attempts h p.action).all (·.contained h p.action)) &&
      (s.close.go h ((runFilters p.action r workers files fs).go h w₁).2).1.isOk
  | _ => false

theorem eq_ok_of_isOk {outcome : Except Failure Unit} (hok : outcome.isOk = true) :
    outcome = .ok () := by
  cases outcome with
  | error e => cases hok
  | ok _ => rfl

theorem of_runsThrough {p : Pass} {l : Config.Loaded} {r : Reporter} {workers : Int} {cwd : Path}
    (hready : p.runsThrough l r workers cwd h w = true) :
    ∃ fs s files w₁, (p.opening l r cwd).go h w = (.ok (fs, s, some files), w₁) ∧
      (∀ x ∈ rounds h p.action r workers files w₁ fs, ∀ t ∈ x.attempts h p.action,
        t.contained h p.action = true) ∧
      (s.close.go h ((runFilters p.action r workers files fs).go h w₁).2).1 = .ok () := by
  unfold runsThrough at hready
  split at hready
  · next fs s files w₁ hopening =>
    obtain ⟨hall, hclose⟩ := Bool.and_eq_true_iff.1 hready
    exact ⟨fs, s, files, w₁, hopening,
      fun x hx => List.all_eq_true.1 (List.all_eq_true.1 hall x hx), eq_ok_of_isOk hclose⟩
  · cases hready

/-- What the small project comes to: one linter is not content with one file, the other is not there. -/
def stagedSummary : String := "\n".intercalate [
  "Errors when linting files:",
  "  ▶ [commands.check] failed for [sub/b.py]",
  "    linting failed",
  "  ▶ [commands.gone] failed for [a.py]",
  "    Could not find \"missing\" in your path (/bin)",
  "  ▶ [commands.gone] failed for [sub/b.py]",
  "    Could not find \"missing\" in your path (/bin)"]

open Sample in
theorem run_complete_staged : ∃ fs s files w₁ exit w₂, 0 < (1 : Int) ∧
    (pass.opening loaded {} root).go host (world script) = (.ok (fs, s, some files), w₁) ∧
    (∀ f ∈ fs, ∀ a n hn, f.params.invoke = .adaptive a n hn → n < Number.leastBeyond Number.mostDigits) ∧
    (∀ x ∈ rounds host .lint {} 1 files w₁ fs, ∀ t ∈ x.attempts host .lint,
      t.contained host .lint = true) ∧
    (s.close.go host ((runFilters .lint {} 1 files fs).go host w₁).2).1 = .ok () ∧
    (pass.run loaded {} 1 root).go host (world script) = (.ok exit, w₂) ∧ exit.status = .failures ∧
    exit.error = some stagedSummary ∧
    Complete host .lint {} fs files (rounds host .lint {} 1 files w₁ fs) w₁ w₂ exit := by
  have hready : pass.runsThrough loaded {} 1 root host (world script) = true := by decide +kernel
  have hends : ((pass.run loaded {} 1 root).go host (world script)).1.toOption.map
      (fun exit => (exit.status, exit.error)) = some (.failures, some stagedSummary) := by decide +kernel
  have hplain : (pass.filters loaded).toOption.any
      (·.all fun f => decide (f.params.invoke = .fixed .files)) = true := by decide +kernel
  obtain ⟨fs, s, files, w₁, hopening, hcontained, hclosed⟩ := of_runsThrough hready
  have hwritten : ∀ f ∈ fs, ∀ a n hn, f.params.invoke = .adaptive a n hn →
      n < Number.leastBeyond Number.mostDigits := by
    intro f hf a n hn hinvoke
    rw [(opening_ok hopening).1] at hplain
    have hfixed := of_decide_eq_true (List.all_eq_true.1 hplain f hf)
    rw [hfixed] at hinvoke
    cases hinvoke
  obtain ⟨-, exit, w₂, hrun, hcomplete⟩ :=
    run_complete (p := pass) Int.one_pos hopening hwritten hcontained hclosed
  rw [hrun] at hends
  obtain ⟨hstatus, herror⟩ := Prod.mk.inj (Option.some.inj hends)
  exact ⟨fs, s, files, w₁, exit, w₂, Int.one_pos, hopening, hwritten, hcontained, hclosed, hrun,
    hstatus, herror, hcomplete⟩

/-- At a filter whose threshold cannot be written the pass ends, with nothing started for that filter or
for any behind it. -/
theorem run_unwritten {p : Pass} {l : Config.Loaded} {r : Reporter} {workers : Int} {cwd : Path}
    {front back : List Filter} {f : Filter} {s : Selector} {files : List Path} {w₁ : World σ}
    (hworkers : 0 < workers)
    (hopening : (p.opening l r cwd).go h w = (.ok (front ++ f :: back, s, some files), w₁))
    (hwritten : ∀ g ∈ front, g.describe? ≠ none) (hf : f.describe? = none)
    (hcontained : ∀ x ∈ rounds h p.action r workers files w₁ front, ∀ t ∈ x.attempts h p.action,
      t.contained h p.action = true)
    (hclose : (s.close.go h
      ((runFilters p.action r workers files (front ++ f :: back)).go h w₁).2).1 = .ok ()) :
    ∃ w₂ after, (p.run l r workers cwd).go h w = (.error (.crash .numberUnwritten), w₂) ∧
      w₂.starts = w₁.starts ++
        (rounds h p.action r workers files w₁ front).flatMap (·.starts h p.action) ++ after ∧
      ∀ s ∈ after, h.StartsGit s := by
  obtain ⟨w₂, hw₂, hfilters⟩ := go_runFilters_append hworkers hwritten hcontained (f :: back)
  have hnote : (announce f).go h w₂ = (.error (.crash .numberUnwritten), w₂) := by
    rw [announce, hf]
    rfl
  rw [go_map, runFilters, go_bind_error hnote] at hfilters
  obtain ⟨after, hafter, hgit⟩ := s.starts_close h w₂
  exact ⟨_, after, go_run_of_opening hopening hfilters hclose, by rw [hafter, hw₂], hgit⟩

namespace Boundless

/-- A linter that is started file by file below a number of files with 4301 digits. -/
def command : Config.Command :=
  { Sample.command .lint "tool" [] with
    invoke := some (.adaptive .fileOrDir (Number.leastBeyond Number.mostDigits) (Number.leastBeyond_pos _)) }

def loaded : Config.Loaded := { Sample.loaded with project := ⟨[], [("check", command)]⟩ }

end Boundless

open Boundless in
/-- No target is attempted once the settings of a filter cannot be written, although nobody reads them. -/
theorem not_run_complete : ¬ ∀ (p : Pass) (l : Config.Loaded) (r : Reporter) (workers : Int) (cwd : Path)
    (h : Host Script) (w w₁ : World Script) (fs : List Filter) (s : Selector) (files : List Path),
    0 < workers → (p.opening l r cwd).go h w = (.ok (fs, s, some files), w₁) →
    (∀ x ∈ rounds h p.action r workers files w₁ fs, ∀ t ∈ x.attempts h p.action,
      t.contained h p.action = true) →
    (s.close.go h ((runFilters p.action r workers files fs).go h w₁).2).1 = .ok () →
    ∃ exit w₂, (p.run l r workers cwd).go h w = (.ok exit, w₂) := by
  intro hall
  have hready : Sample.pass.runsThrough loaded {} 1 Sample.root Sample.host
      (Sample.world Sample.script) = true := by decide +kernel
  have hfails : ((Sample.pass.run loaded {} 1 Sample.root).go Sample.host
      (Sample.world Sample.script)).1.isOk = false := by decide +kernel
  obtain ⟨fs, s, files, w₁, hopening, hcontained, hclosed⟩ := of_runsThrough hready
  obtain ⟨exit, w₂, hrun⟩ := hall _ _ _ _ _ _ _ _ _ _ _ Int.one_pos hopening hcontained hclosed
  rw [hrun] at hfails
  cases hfails

end Pass

end LintRunner
