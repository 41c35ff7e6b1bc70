import LintRunner.Proofs.Pass.Pool
import LintRunner.Proofs.Run.Prints
import Mathlib.Data.Set.List

/-! A filter's turn with its targets shared out among workers. Whatever the schedule and the order in
which the results are taken, it comes to what the turn comes to that takes the targets one at a time. -/

namespace LintRunner

open Run World Pass FileTree

variable {σ γ : Type} {h : Host σ} {a : Action} {x : Round σ} {w w' : World σ} {files : List Path}

namespace Pool

/-- The results by the paths of their targets. -/
def ordered (rs : List (Target × γ)) : List (Target × γ) :=
  rs.insertionSort fun e e' => e'.1.path.before e.1.path = false

theorem ordered_perm (rs : List (Target × γ)) : (ordered rs).Perm rs := List.perm_insertionSort _ rs

theorem ordered_pairwise (rs : List (Target × γ)) :
    (ordered rs).Pairwise fun e e' => e'.1.path.before e.1.path = false := by
  have htotal : Std.Total fun e e' : Target × γ => e'.1.path.before e.1.path = false := by
    refine ⟨fun e e' => ?_⟩
    rcases List.le_total e.1.path.key e'.1.path.key with hle | hle
    · exact .inl (decide_eq_false (List.not_lt.2 hle))
    · exact .inr (decide_eq_false (List.not_lt.2 hle))
  have htrans : IsTrans (Target × γ) fun e e' => e'.1.path.before e.1.path = false :=
    ⟨fun _ _ _ he he' => Path.before_eq_false_trans he he'⟩
  exact List.pairwise_insertionSort _ rs

/-- Results of different targets have only one order, in whichever they came. -/
theorem ordered_eq {rs rs' : List (Target × γ)} (hperm : rs.Perm rs')
    (hpaths : Path.Ascending (rs'.map (·.1.path))) (hrel : ∀ e ∈ rs', e.1.path.anchor = .relative) :
    ordered rs = rs' := by
  have hsorted : rs'.Pairwise fun e e' => e'.1.path.before e.1.path = false := by
    refine (List.pairwise_map.1 hpaths).imp fun {e e'} hlt => ?_
    by_contra hgt
    have hcircle := Path.before_trans hlt (by simpa using hgt)
    rw [Path.before_irrefl] at hcircle
    cases hcircle
  refine ((ordered_perm rs).trans hperm).eq_of_pairwise (fun e e' he he' hle hge => ?_)
    (ordered_pairwise rs) hsorted
  have he : e ∈ rs' := hperm.subset ((ordered_perm rs).subset he)
  by_contra hne
  have hpath : e.1.path ≠ e'.1.path := fun heq => hne (List.inj_on_of_nodup_map hpaths.nodup he he' heq)
  rw [Path.before_of_not_before (hrel e he) (hrel e' he') hpath hge] at hle
  cases hle

end Pool

section Collecting

/-- The value of a target, or the failure that it could not keep to itself. -/
def labelled (e : Target × Except Failure γ) : Except Failure (Target × γ) := e.2.map (e.1, ·)

/-- A value that there is. -/
def valued (r : Target × γ) : Target × Except Failure γ := (r.1, .ok r.2)

theorem valued_injective : Function.Injective (valued (γ := γ)) := by
  rintro ⟨t, r⟩ ⟨t', r'⟩ heq
  cases heq
  rfl

theorem mapM_labelled_eq_ok_iff {es : List (Target × Except Failure γ)} {rs : List (Target × γ)} :
    es.mapM labelled = .ok rs ↔ es = rs.map valued := by
  induction es generalizing rs with
  | nil =>
    cases rs with
    | nil => exact iff_of_true rfl rfl
    | cons r rs => exact iff_of_false nofun nofun
  | cons e es ih =>
    obtain ⟨t, o⟩ := e
    rw [List.mapM_cons]
    constructor
    · intro hok
      obtain ⟨r, hr, hok⟩ := of_bind_ok hok
      obtain ⟨rest, hrest, hok⟩ := of_bind_ok hok
      cases hok
      cases o with
      | error e => cases hr
      | ok v =>
        cases hr
        rw [ih.1 hrest]
        rfl
    · intro heq
      cases rs with
      | nil => cases heq
      | cons r rs =>
        obtain ⟨he, hrest⟩ := List.cons.inj heq
        cases he
        rw [ih.2 hrest]
        rfl

theorem go_mapM_labelled (es : List (Target × Except Failure γ)) (h : Host σ) (w : World σ) :
    (es.mapM fun e => Run.ofExcept id (labelled e)).go h w = (es.mapM labelled, w) := by
  induction es with
  | nil => rfl
  | cons e es ih =>
    rw [List.mapM_cons, List.mapM_cons]
    cases he : labelled e with
    | error e => rfl
    | ok r =>
      rw [go_bind_ok (go_ofExcept_ok id r h w), go_bind, ih]
      cases es.mapM labelled <;> rfl

/-- Whether all values are there does not depend on the order in which they come. -/
theorem collected_cases {es es' : List (Target × Except Failure γ)} (hperm : es.Perm es')
    (hpaths : Path.Ascending (es'.map (·.1.path))) (hrel : ∀ e ∈ es', e.1.path.anchor = .relative) :
    (∃ rs, es.mapM labelled = .ok rs ∧ es'.mapM labelled = .ok (Pool.ordered rs)) ∨
      ∃ e e', es.mapM labelled = .error e ∧ es'.mapM labelled = .error e' := by
  have hcarry {es es' : List (Target × Except Failure γ)} {rs : List (Target × γ)} (hperm : es.Perm es')
      (hes : es = rs.map valued) : ∃ rs', es' = rs'.map valued ∧ rs.Perm rs' := by
    have hall : ∀ e ∈ es', e ∈ Set.range (valued (γ := γ)) := by
      intro e he
      obtain ⟨r, -, hr⟩ := List.mem_map.1 (hes ▸ hperm.symm.subset he)
      exact ⟨r, hr⟩
    obtain ⟨rs', rfl⟩ : es' ∈ Set.range (List.map valued) := by
      rw [Set.range_list_map]
      exact hall
    rw [hes] at hperm
    exact ⟨rs', rfl, (List.map_perm_map_iff valued_injective).1 hperm⟩
  cases hes : es.mapM labelled with
  | ok rs =>
    obtain ⟨rs', hes', hrs⟩ := hcarry hperm (mapM_labelled_eq_ok_iff.1 hes)
    have hordered : Pool.ordered rs = rs' := by
      refine Pool.ordered_eq hrs ?_ fun r hr => hrel (valued r) (hes' ▸ List.mem_map_of_mem hr)
      simpa [hes', Function.comp_def, valued] using hpaths
    exact .inl ⟨rs, rfl, by rw [hordered]; exact mapM_labelled_eq_ok_iff.2 hes'⟩
  | error e =>
    cases hes' : es'.mapM labelled with
    | ok rs' =>
      obtain ⟨rs, hrs, -⟩ := hcarry hperm.symm (mapM_labelled_eq_ok_iff.1 hes')
      cases hes.symm.trans (mapM_labelled_eq_ok_iff.2 hrs)
    | error e' => exact .inr ⟨e, e', rfl, rfl⟩

end Collecting

namespace Pass

/-- The targets of a filter shared out, and the results in the order in which they came. -/
def runPool (a : Action) (workers : Nat) (schedule : List Move) (f : Filter) (files : List Path) :
    Run σ (List (Target × Except Failure (Option Result))) := fun h w =>
  let p := (⟨f, files, w⟩ : Round σ).pool h a workers schedule
  (.ok p.taken, p.world)

/-- Runs a filter with a number of workers, whose steps come in the order of a schedule. -/
def runScheduled (a : Action) (r : Reporter) (workers : Int) (schedule : List Move) (f : Filter)
    (files : List Path) : Run σ (List FailedTarget) := do
  let scope ← f.resolveScope files
  let started ← Run.now
  if workers ≤ 0 then Run.fail (.crash .noWorkers)
  let taken ← runPool a workers.toNat schedule f files
  let results ← taken.mapM fun e => Run.ofExcept id (labelled e)
  conclude a r f scope started ((Pool.ordered results).filterMap fun (t, r) => r.map (t, ·))

theorem prints_conclude (a : Action) (r : Reporter) (f : Filter) (scope : Filter.Scope)
    (results : List (Target × Result)) : ∃ lines, ∀ started,
      Prints h (results.filterMap fun (t, result) => failure? f scope t result) lines
        (conclude a r f scope started results) := by
  obtain ⟨lines, hlines⟩ := Prints.forM (h := h) (fun e => prints_report r f scope e.1 e.2) results
  have hrest : Prints h (results.filterMap fun (t, result) => failure? f scope t result) lines (do
      results.forM fun (t, result) => report r f scope t result
      return results.filterMap fun (t, result) => failure? f scope t result) := by
    rw [← List.append_nil lines]
    exact hlines.bind (prints_pure _)
  refine ⟨lines, fun started => ?_⟩
  unfold conclude
  split
  · exact Prints.now fun t => (prints_info _).bind hrest
  · exact hrest

variable (r : Reporter) (workers : Int) (f : Filter)

/-- What a filter's turn begins with, whether or not there are workers. -/
theorem exists_opened (files : List Path) (h : Host σ) (w : World σ) : ∃ started w₁,
    (f.resolveScope files).go h w = (.ok (f.scopeOf files), w₁) ∧
      Run.now.go h w₁ = (.ok started, (Round.opened h files w f).begun) := by
  obtain ⟨_, w₁, hscope, rfl, -⟩ := f.yields_resolveScope files (h := h) w
  obtain ⟨started, w₂, hnow, -, -⟩ := yields_now (h := h) w₁
  refine ⟨started, w₁, hscope, ?_⟩
  rw [Round.opened, go_bind_ok hscope, hnow]

theorem go_runFilter_conclude (files : List Path) (h : Host σ) (w : World σ) (hworkers : 0 < workers) :
    ∃ started, (runFilter a r workers f files (Group.make files)).go h w =
      match (Round.opened h files w f).results h a with
      | .ok results => (conclude a r f (f.scopeOf files) started results).go h
          ((Round.opened h files w f).left h a)
      | .error e => (.error e, (Round.opened h files w f).left h a) := by
  obtain ⟨started, w₁, hscope, hnow⟩ := exists_opened f files h w
  refine ⟨started, ?_⟩
  rw [runFilter, go_bind_ok hscope, go_bind_ok hnow, if_neg (by omega)]
  have hturn := (Round.opened h files w f).go_runTargets h a
  cases hres : (Round.opened h files w f).results h a with
  | error e =>
    rw [hres] at hturn
    exact go_bind_error hturn _
  | ok results =>
    rw [hres] at hturn
    exact go_bind_ok hturn _

theorem go_runScheduled_conclude (schedule : List Move) (files : List Path) (h : Host σ) (w : World σ)
    (hworkers : 0 < workers) :
    let p := (Round.opened h files w f).pool h a workers.toNat schedule
    ∃ started, (runScheduled a r workers schedule f files).go h w =
      match p.taken.mapM labelled with
      | .ok rs => (conclude a r f (f.scopeOf files) started
          ((Pool.ordered rs).filterMap fun (t, r) => r.map (t, ·))).go h p.world
      | .error e => (.error e, p.world) := by
  intro p
  obtain ⟨started, w₁, hscope, hnow⟩ := exists_opened f files h w
  refine ⟨started, ?_⟩
  have hpool : (runPool a workers.toNat schedule f files).go h (Round.opened h files w f).begun =
      (.ok p.taken, p.world) := rfl
  have htaken := go_mapM_labelled p.taken h p.world
  rw [runScheduled, go_bind_ok hscope, go_bind_ok hnow, if_neg (by omega), go_bind_ok hpool]
  cases hrs : p.taken.mapM labelled with
  | error e =>
    rw [hrs] at htaken
    exact go_bind_error htaken _
  | ok rs =>
    rw [hrs] at htaken
    exact go_bind_ok htaken _

theorem go_of_no_workers (schedule : List Move) (files : List Path) (h : Host σ) (w : World σ)
    (hworkers : workers ≤ 0) :
    (runScheduled a r workers schedule f files).go h w =
        (.error (.crash .noWorkers), (Round.opened h files w f).begun) ∧
      (runFilter a r workers f files (Group.make files)).go h w =
        (.error (.crash .noWorkers), (Round.opened h files w f).begun) := by
  obtain ⟨started, w₁, hscope, hnow⟩ := exists_opened f files h w
  constructor
  · rw [runScheduled, go_bind_ok hscope, go_bind_ok hnow, if_pos hworkers]
    rfl
  · rw [runFilter, go_bind_ok hscope, go_bind_ok hnow, if_pos hworkers]
    rfl

/-- The results of a turn are those that its attempts came to, one after another. -/
theorem results_eq (x : Round σ) (h : Host σ) (a : Action) : x.results h a =
    (((x.attempts h a).map fun y => (y.target, y.kept h a)).mapM labelled).map
      (·.filterMap fun (t, r) => r.map (t, ·)) := by
  rw [Round.results, List.mapM_map, List.mapM_map]
  rfl

/-- Attempts are in the order of their paths. -/
theorem ascending_attempts (a : Action) (hfiles : Path.Ascending files)
    (hrel : ∀ p ∈ files, p.anchor = .relative) (h : Host σ) (w : World σ) :
    let es := ((Round.opened h files w f).attempts h a).map fun y => (y.target, y.kept h a)
    Path.Ascending (es.map (·.1.path)) ∧ ∀ e ∈ es, e.1.path.anchor = .relative := by
  intro es
  have htargets : es.map (·.1) = Target.pathMap (f.scopeOf files) files (Group.make files) := by
    rw [List.map_map]
    exact targets_attempts h a f (f.scopeOf files) (Round.opened h files w f).begun _
  constructor
  · have hascending := Target.ascending_paths (f.scopeOf files) hfiles hrel
    rw [← htargets, List.map_map] at hascending
    exact hascending
  · intro e he
    have htarget : e.1 ∈ Target.pathMap (f.scopeOf files) files (Group.make files) :=
      htargets ▸ List.mem_map_of_mem he
    exact Target.relative_path htarget hrel

/-- What comes after the results is the same for both turns, if the results are the same but for
their order. -/
theorem go_of_perm {schedule : List Move} {h : Host σ} {w : World σ} (hworkers : 0 < workers)
    (hfiles : Path.Ascending files) (hrel : ∀ p ∈ files, p.anchor = .relative) :
    let x := Round.opened h files w f
    let p := x.pool h a workers.toNat schedule
    let together := (runScheduled a r workers schedule f files).go h w
    let inTurn := (runFilter a r workers f files (Group.make files)).go h w
    p.taken.Perm ((x.attempts h a).map fun y => (y.target, y.kept h a)) →
      p.world.printed = (x.left h a).printed →
      together.2.tree = p.world.tree ∧ inTurn.2.tree = (x.left h a).tree ∧
        together.2.printed = inTurn.2.printed ∧
        ∀ failed, together.1 = .ok failed ↔ inTurn.1 = .ok failed := by
  intro x p together inTurn hperm hprinted
  obtain ⟨started, htogether⟩ := go_runScheduled_conclude (a := a) r workers f schedule files h w hworkers
  obtain ⟨started', hinTurn⟩ := go_runFilter_conclude (a := a) r workers f files h w hworkers
  obtain ⟨hpaths, hanchor⟩ := ascending_attempts f a hfiles hrel h w
  rw [results_eq] at hinTurn
  rcases collected_cases hperm hpaths hanchor with ⟨rs, hrs, hrs'⟩ | ⟨e, e', he, he'⟩
  · obtain ⟨lines, hlines⟩ := prints_conclude (h := h) a r f (f.scopeOf files)
      ((Pool.ordered rs).filterMap fun (t, r) => r.map (t, ·))
    rw [hrs] at htogether
    rw [hrs'] at hinTurn
    obtain ⟨w₁, hgo, htree, hprints⟩ := hlines started p.world
    obtain ⟨w₁', hgo', htree', hprints'⟩ := hlines started' (x.left h a)
    have htogether : together = _ := htogether.trans hgo
    have hinTurn : inTurn = _ := hinTurn.trans hgo'
    rw [htogether, hinTurn]
    exact ⟨htree, htree', by rw [hprints, hprints', hprinted], fun _ => Iff.rfl⟩
  · rw [he] at htogether
    rw [he'] at hinTurn
    have htogether : together = _ := htogether
    have hinTurn : inTurn = _ := hinTurn
    rw [htogether, hinTurn]
    refine ⟨rfl, rfl, hprinted, fun failed => ?_⟩
    constructor
    · intro hok
      cases hok
    · intro hok
      cases hok

theorem independent_opened {f : Filter} (hfiles : Path.Ascending files)
    (hrel : ∀ p ∈ files, p.anchor = .relative) (hproper : w.tree.Proper)
    (hapart : (Round.opened h files w f).Apart h a) (hconfined : (Round.opened h files w f).Confined h a) :
    (Round.opened h files w f).Independent h a where
  proper := by
    rw [(Round.idle_opened h files w f).tree]
    exact hproper
  nodup := (Target.ascending_paths _ hfiles hrel).nodup.of_map
  relative := fun _ ht => Target.relative_path ht hrel
  apart := hapart
  confined := hconfined

/-- Where targets keep out of each other's way, neither the number of workers nor the order of their
steps and of the results can be told from what a filter comes to. With workers there is always a way on
to the end; without them nothing begins. -/
theorem runScheduled_unobservable (a : Action) (r : Reporter) (workers : Int) (f : Filter)
    {files : List Path} (hfiles : Path.Ascending files) (hrel : ∀ p ∈ files, p.anchor = .relative)
    (h : Host σ) (w : World σ) (hproper : w.tree.Proper) (hapart : (Round.opened h files w f).Apart h a)
    (hconfined : (Round.opened h files w f).Confined h a) (schedule : List Move) :
    let x := Round.opened h files w f
    let p := x.pool h a workers.toNat schedule
    let together := (runScheduled a r workers schedule f files).go h w
    let inTurn := (runFilter a r workers f files (Group.make files)).go h w
    (workers ≤ 0 → together = inTurn) ∧
    (0 < workers → ∃ later, (x.pool h a workers.toNat (schedule ++ later)).jobs = []) ∧
    (p.jobs = [] →
      (∀ l, together.2.tree.get? l = inTurn.2.tree.get? l) ∧
        Pool.ordered p.taken = (x.attempts h a).map (fun y => (y.target, y.kept h a)) ∧
        together.2.printed = inTurn.2.printed ∧
        ∀ failed, together.1 = .ok failed ↔ inTurn.1 = .ok failed) := by
  intro x p together inTurn
  have hnone (hworkers : workers ≤ 0) : together = inTurn := by
    obtain ⟨htogether, hinTurn⟩ := go_of_no_workers (a := a) r workers f schedule files h w hworkers
    exact htogether.trans hinTurn.symm
  refine ⟨hnone, fun hworkers => ?_, fun hall => ?_⟩
  · have hfree : 0 < workers.toNat := by omega
    obtain ⟨later, hlater⟩ := p.exists_finish (h := h) (a := a) (f := f) hfree
    exact ⟨later, (congrArg Pool.jobs (Pool.follow_append _ schedule later)).trans hlater⟩
  · have hx : x.Independent h a := independent_opened hfiles hrel hproper hapart hconfined
    have hp := Round.coherent_pool hx workers.toNat schedule
    have hq := Round.coherent_pool hx 1 (Round.inTurn x.targets.length)
    rw [Round.pool_inTurn] at hq
    obtain ⟨hsame, hprinted, hperm⟩ := hp.agrees hq hall rfl
    obtain ⟨hpaths, hanchor⟩ := ascending_attempts f a hfiles hrel h w
    have hordered := Pool.ordered_eq hperm hpaths hanchor
    by_cases hworkers : 0 < workers
    · obtain ⟨htree, htree', hprints, hends⟩ := go_of_perm r workers f hworkers hfiles hrel hperm hprinted
      refine ⟨fun l => ?_, hordered, hprints, hends⟩
      rw [htree, htree']
      exact hsame l
    · rw [hnone (Int.not_lt.1 hworkers)]
      exact ⟨fun _ => rfl, hordered, rfl, fun _ => Iff.rfl⟩

end Pass

namespace Sample

/-- The file that the last argument names. -/
def lastNamed (s : Spawn) : Location := ["p"] ++ (Path.ofString (s.argv.getLast?.getD "")).parts

/-- A tool that adds a line end to the file that it is given. -/
def ender : Host Nat where
  cwd := ["p"]
  env := [("PATH", "/bin")]
  terminal := false
  spawn := fun s t n =>
    match t.get? (lastNamed s) with
    | some (.file bytes executable) =>
      (.ok ⟨.exited 0, "", ""⟩, t.put (lastNamed s) (.file (bytes.push 10) executable), n + 1)
    | _ => (.ok ⟨.exited 1, "", ""⟩, t, n + 1)
  clock := fun n => (n, n + 1)
  git := none

def untouched : World Nat := ⟨tree, 0, [], {}, .warning⟩

/-- Both files are captured before either command is started, and what comes last is taken first. -/
def crossed : List Move :=
  [.step 0, .step 1, .step 1, .step 0, .step 0, .step 1, .take 1, .take 0]

theorem confinedTo_ender {x : Round Nat} {t : Target} {s : Spawn} (ht : t ∈ x.targets)
    (hown : x.Owns ender t (lastNamed s)) : x.ConfinedTo ender t s where
  writes tree mind hnear := by
    dsimp only [ender]
    split
    · next bytes executable hl => exact hnear.put ht hown hl _
    · exact ⟨hnear, fun _ _ => rfl⟩
  depends tree tree' mind mind' _ _ hsame := by
    dsimp only [ender]
    rw [← hsame _ hown]
    split
    · next bytes executable hl =>
      have htop : lastNamed s ≠ [] := by simp [lastNamed]
      refine ⟨rfl, fun l hl => ?_⟩
      rw [get?_put htop, get?_put htop, hsame l hl]
    · exact ⟨rfl, hsame⟩

/-- The target is a file of the project, and its own name comes last in its command. -/
def namedLast (x : Round Nat) (t : Target) : Bool :=
  let l := ["p"] ++ (Path.ofString t.path.text).parts
  x.begun.tree.place? ender.cwd (x.full t) == some l && (x.begun.tree.get? l).any Entry.isFile &&
    match x.filter.requestFor .tidy t.path t.files x.scope with
    | .ok r => r.args.getLast? == some t.path.text
    | .error _ => false

theorem confined_ender {x : Round Nat} (hscope : x.scope = .files)
    (hlast : ∀ t ∈ x.targets, namedLast x t = true) : x.Confined ender .tidy := by
  intro t ht r hr s hs
  have hnamed := hlast t ht
  simp only [namedLast, hr, Bool.and_eq_true, beq_iff_eq, Option.any_eq_true] at hnamed
  obtain ⟨⟨hplace, e, he, hfile⟩, hargs⟩ := hnamed
  obtain ⟨exe, -, hargv⟩ := hs.program
  have hplain : x.begun.tree.Plain (["p"] ++ (Path.ofString t.path.text).parts) := by
    cases e with
    | file bytes executable => exact .inr ⟨bytes, executable, he⟩
    | directory => cases hfile
    | link target => cases hfile
  refine confinedTo_ender ht ?_
  have hlastNamed : lastNamed s = ["p"] ++ (Path.ofString t.path.text).parts := by
    simp [lastNamed, hargv, List.getLast?_cons, hargs]
  rw [hlastNamed]
  exact ⟨hplain, x.full t, by simp [Round.Inside, hscope], hplace⟩

end Sample

open Sample in
theorem Pass.runScheduled_unobservable_crossed : ∃ f,
    Config.Loaded.buildFilter root "format" (Sample.command .tidy "tool" []) = .ok f ∧
    Path.Ascending [topFile, subFile] ∧ (∀ p ∈ [topFile, subFile], p.anchor = .relative) ∧
    untouched.tree.Proper ∧
    let x := Round.opened ender [topFile, subFile] untouched f
    let together := (runScheduled .tidy {} 2 crossed f [topFile, subFile]).go ender untouched
    let inTurn := (runFilter .tidy {} 2 f [topFile, subFile] (Group.make [topFile, subFile])).go ender untouched
    x.Apart ender .tidy ∧ x.Confined ender .tidy ∧ (x.pool ender .tidy 2 crossed).jobs = [] ∧
    (x.pool ender .tidy 2 crossed).taken.map (·.1.path) = [subFile, topFile] ∧
    (∀ l, together.2.tree.get? l = inTurn.2.tree.get? l) ∧
    Pool.ordered (x.pool ender .tidy 2 crossed).taken =
      (x.attempts ender .tidy).map (fun y => (y.target, y.kept ender .tidy)) ∧
    together.2.printed = inTurn.2.printed ∧
    ∀ failed, together.1 = .ok failed ↔ inTurn.1 = .ok failed := by
  have hready : (match Config.Loaded.buildFilter root "format" (Sample.command .tidy "tool" []) with
      | .ok f =>
        let x := Round.opened ender [topFile, subFile] untouched f
        let p := x.pool ender .tidy 2 crossed
        decide (x.scope = .files ∧ (∀ t ∈ x.targets, namedLast x t = true) ∧
          (∀ t ∈ x.targets, ∀ u ∈ x.targets, t ≠ u → ∀ l ∈ x.looked ender .tidy t,
            x.begun.tree.place? ender.cwd (x.full u) ≠ some l) ∧
          p.jobs.isEmpty = true ∧ p.taken.map (·.1.path) = [subFile, topFile])
      | .error _ => false) = true := by decide +kernel
  split at hready
  · next f hf =>
    obtain ⟨hscope, hlast, hlooked, hjobs, htaken⟩ := of_decide_eq_true hready
    have hfiles : Path.Ascending [topFile, subFile] := List.pairwise_pair.2 (by decide)
    have hrel : ∀ p ∈ [topFile, subFile], p.anchor = .relative := by decide
    have hproper : untouched.tree.Proper := by decide +kernel
    have hapart := Round.apart_of_looked hscope hlooked
    have hconfined := confined_ender hscope hlast
    have hall := List.isEmpty_iff.1 hjobs
    obtain ⟨-, -, hsame⟩ := Pass.runScheduled_unobservable .tidy {} 2 f hfiles hrel ender untouched hproper
      hapart hconfined crossed
    exact ⟨f, hf, hfiles, hrel, hproper, hapart, hconfined, hall, htaken, hsame hall⟩
  · cases hready

end LintRunner
