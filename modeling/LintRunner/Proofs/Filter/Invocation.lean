import LintRunner.Filter.Invocation
import LintRunner.Proofs.Run.Start
import Mathlib.Data.List.Forall2

/-! A filter and one target. It does not apply and nothing is started, or something stands in its
way and nothing is started, or its command is started once with the files of the target on the
command line. -/

namespace LintRunner.Filter

open World Run

variable {σ α β : Type} {h : Host σ} {w w' : World σ} {P : Event → Prop} (f : Filter)

variable {f} in
/-- A filter is built with its settings, where no code counts as both ok and a failure. -/
theorem of_build {params : Params} {root : Path} (hf : build params root = .ok f) :
    f.params = params ∧ f.root = root ∧ overlap params = [] := by
  unfold build at hf
  split at hf
  · split at hf
    · cases hf
    · cases hf
  · next hoverlap =>
    split at hf
    · cases hf
    · obtain ⟨includer, -, hf⟩ := of_bind_ok hf
      obtain ⟨excluder, -, hf⟩ := of_bind_ok hf
      obtain ⟨tolerated, -, hf⟩ := of_bind_ok hf
      cases hf
      exact ⟨rfl, rfl, not_not.1 hoverlap⟩

/-- The filter applies to the target. -/
def takes (p : Path) (files : List Path) : Scope → Bool
  | .files => f.covers p
  | _ => !f.excluder.covers p true && (f.includer.covers p true || files.any f.covers)

theorem yields_appliesToFile (p : Path) :
    Yields h (· = f.takes p [] .files) (f.appliesToFile p) := by
  unfold appliesToFile
  split
  · next hx => exact (yields_debug _).bind fun _ _ => yields_pure (by simp [takes, covers, hx])
  · next hx => exact yields_pure (by simp [takes, covers, hx])

theorem yields_appliesToDirectory (p : Path) (files : List Path) :
    Yields h (· = f.takes p files .dirs) (f.appliesToDirectory p files) := by
  unfold appliesToDirectory
  split
  · next hx => exact (yields_debug _).bind fun _ _ => yields_pure (by simp [takes, hx])
  · next hx =>
    split
    · next hi => exact yields_pure (by simp [takes, hx, hi])
    · next hi =>
      have htakes : f.takes p files .dirs = files.any f.covers := by simp [takes, hx, hi]
      split
      · next member hm =>
        have hany : files.any f.covers = true :=
          List.any_eq_true.2 ⟨member, List.mem_of_find?_eq_some hm, List.find?_some hm⟩
        exact (yields_debug _).bind fun _ _ => yields_pure (htakes.trans hany).symm
      · next hm =>
        have hnone : files.any f.covers = false := List.any_eq_false.2 (List.find?_eq_none.1 hm)
        exact (yields_debug _).bind fun _ _ => yields_pure (htakes.trans hnone).symm

theorem yields_applies (p : Path) (files : List Path) (scope : Scope) :
    Yields h (· = f.takes p files scope) (f.applies p files scope) := by
  cases scope with
  | files => exact f.yields_appliesToFile p
  | dirs => exact f.yields_appliesToDirectory p files
  | root => exact f.yields_appliesToDirectory p files

theorem yields_resolveScope (files : List Path) :
    Yields h (· = f.scopeOf files) (f.resolveScope files) :=
  (yields_debug _).bind fun _ _ => yields_pure rfl

theorem idle_checkScope (p : Path) (scope : Scope) : Moves h Idle (f.checkScope p scope) := by
  unfold checkScope
  split
  · exact (idle_askTree _ _).bind fun _ => (moves_fail _).ite (moves_pure _)
  · exact (idle_askTree _ _).bind fun _ => (moves_fail _).ite (moves_pure _)
  · exact moves_pure _

/-- A path argument as a command that runs in `directory` understands it. -/
def Names (directory item : Path) (arg : String) : Prop :=
  if f.params.pathArgs.isAbsolute then arg = (f.root / item).text
  else ∃ way : Path, way.anchor = .relative ∧ directory / way = f.root / item ∧ arg = way.text

variable {f}

theorem names_of_relativeText {directory item : Path} {arg : String}
    (hstyle : f.params.pathArgs.isAbsolute = false) (ha : f.relativeText directory item = .ok arg) :
    f.Names directory item arg := by
  unfold relativeText at ha
  rw [Names, if_neg (by simp [hstyle])]
  split at ha
  · next way hway =>
    cases ha
    obtain ⟨hrel, hjoin⟩ := Path.relativeTo?_eq_some_iff.1 hway
    refine ⟨way, hrel, ?_, rfl⟩
    rw [hjoin]
    exact if_neg (by simp [Path.isAbsolute, hrel])
  · cases ha

theorem forall₂_of_mapM_ok {ε : Type} {g : α → Except ε β} {R : α → β → Prop}
    (hg : ∀ a b, g a = .ok b → R a b) {as : List α} {bs : List β} (hm : as.mapM g = .ok bs) :
    List.Forall₂ R as bs := by
  induction as generalizing bs with
  | nil =>
    cases hm
    exact .nil
  | cons a as ih =>
    rw [List.mapM_cons] at hm
    obtain ⟨b, ha, hm⟩ := of_bind_ok hm
    obtain ⟨rest, hrest, hm⟩ := of_bind_ok hm
    cases hm
    exact .cons (hg a b ha) (ih hrest)

theorem names_of_renderPaths {p directory : Path} {files : List Path} {scope : Scope}
    {args : List String} (hstyle : f.params.pathArgs.namesFiles = true)
    (hargs : f.renderPaths p files scope directory = .ok args) :
    List.Forall₂ (f.Names directory) (f.itemsFor p files scope) args := by
  unfold renderPaths at hargs
  cases hs : f.params.pathArgs with
  | file =>
    have habs : f.params.pathArgs.isAbsolute = false := by rw [hs]; rfl
    rw [hs] at hargs
    exact forall₂_of_mapM_ok (g := f.relativeText directory)
      (fun _ _ ha => names_of_relativeText habs ha) hargs
  | absoluteFile =>
    have habs : f.params.pathArgs.isAbsolute = true := by rw [hs]; rfl
    rw [hs] at hargs
    cases hargs
    refine List.forall₂_map_right_iff.2 (List.forall₂_same.2 ?_)
    intro item _
    rw [Names, if_pos habs]
  | _ =>
    rw [hs] at hstyle
    cases hstyle

variable (f)

/-- The command of `s` is that of the filter, with `args` for its paths, and runs in `directory`. -/
structure Line (h : Host σ) (a : Action) (w : World σ) (directory : Path) (args : List String)
    (s : Spawn) : Prop where
  argv : ∃ exe name rest, f.commandLine args a = name :: rest ∧ s.argv = exe :: rest
  cwd : w.tree.resolve h.cwd directory = .ok s.cwd

/-- `s` is the filter's command, with a path argument for each of `items`. -/
def Hands (h : Host σ) (a : Action) (w : World σ) (items : List Path) (s : Spawn) : Prop :=
  ∃ directory args, f.Line h a w directory args s ∧ List.Forall₂ (f.Names directory) items args

variable {f}

theorem requestFor_ok {a : Action} {p : Path} {files : List Path} {scope : Scope}
    {r : Exec.Request} (hr : f.requestFor a p files scope = .ok r) :
    ∃ directory args, f.workingDirFor p scope = .ok directory ∧
      f.renderPaths p files scope directory = .ok args ∧
      f.commandLine args a = r.exe :: r.args ∧ r.inDir = some directory := by
  unfold requestFor at hr
  obtain ⟨directory, hdir, hr⟩ := of_bind_ok hr
  obtain ⟨args, hargs, hr⟩ := of_bind_ok hr
  refine ⟨directory, args, of_mapError_ok hdir, of_mapError_ok hargs, ?_⟩
  split at hr
  · cases hr
  · next exe rest hline =>
    cases hr
    exact ⟨hline, rfl⟩

theorem hands_of_starts {a : Action} {p : Path} {files : List Path} {scope : Scope}
    {r : Exec.Request} {s : Spawn} (hstyle : f.params.pathArgs.namesFiles = true)
    (hr : f.requestFor a p files scope = .ok r) (hs : r.Starts h w s) :
    f.Hands h a w (f.itemsFor p files scope) s := by
  obtain ⟨directory, args, -, hargs, hline, hin⟩ := requestFor_ok hr
  obtain ⟨exe, -, hargv⟩ := hs.program
  refine ⟨directory, args, ⟨⟨exe, r.exe, r.args, hline, hargv⟩, ?_⟩, names_of_renderPaths hstyle hargs⟩
  simpa [hin] using hs.directory

theorem of_mem_mapM_ok {ε : Type} {g : α → Except ε β} {as : List α} {bs : List β} {b : β}
    (hm : as.mapM g = .ok bs) (hb : b ∈ bs) : ∃ a ∈ as, g a = .ok b := by
  have hall := forall₂_of_mapM_ok (R := fun a b => g a = .ok b) (fun _ _ => id) hm
  clear hm
  induction hall with
  | nil => cases hb
  | cons ha _ ih =>
    rcases List.mem_cons.1 hb with rfl | hb
    · exact ⟨_, List.mem_cons_self, ha⟩
    · obtain ⟨a, hmem, ha⟩ := ih hb
      exact ⟨a, List.mem_cons_of_mem _ hmem, ha⟩

theorem exists_mapM_ok {ε : Type} {g : α → Except ε β} {as : List α}
    (hg : ∀ a ∈ as, ∃ b, g a = .ok b) : ∃ bs, as.mapM g = .ok bs := by
  induction as with
  | nil => exact ⟨[], rfl⟩
  | cons a as ih =>
    obtain ⟨b, hb⟩ := hg a (by simp)
    obtain ⟨bs, hbs⟩ := ih fun a ha => hg a (by simp [ha])
    exact ⟨b :: bs, by rw [List.mapM_cons, hb, hbs]; rfl⟩

/-- From the project itself every file of the project can be named. -/
theorem relativeText_root {item : Path} (hrel : item.anchor = .relative) :
    f.relativeText f.root item = .ok item.text := by
  have hway : (f.root / item).relativeTo? f.root = some item := by
    refine Path.relativeTo?_eq_some_iff.2 ⟨hrel, ?_⟩
    exact if_neg (by simp [Path.isAbsolute, hrel])
  rw [relativeText, hway]

theorem flagged_ne_nil (path : String) : f.flagged path ≠ [] := by
  unfold flagged
  split
  · split <;> simp
  · simp

/-- A filter that names files and runs in the project can always be put into words. -/
theorem exists_requestFor {a : Action} {p : Path} {files : List Path} {scope : Scope}
    (hstyle : f.params.pathArgs.namesFiles = true) (hdir : f.params.workingDir = .root)
    (hrel : ∀ item ∈ f.itemsFor p files scope, item.anchor = .relative)
    (hne : f.itemsFor p files scope ≠ []) : ∃ r, f.requestFor a p files scope = .ok r := by
  have hroot : f.workingDirFor p scope = .ok f.root := by rw [workingDirFor, hdir]
  obtain ⟨args, hargs⟩ : ∃ args, f.renderPaths p files scope f.root = .ok args := by
    unfold renderPaths
    split
    · next hs => simp [hs, PathStyle.namesFiles] at hstyle
    · next hs => simp [hs, PathStyle.namesFiles] at hstyle
    · split
      · exact ⟨_, rfl⟩
      · exact exists_mapM_ok fun item hi => ⟨_, relativeText_root (hrel item hi)⟩
  have hnames := names_of_renderPaths hstyle hargs
  obtain ⟨item, items, hitems⟩ := List.exists_cons_of_ne_nil hne
  rw [hitems] at hnames
  cases hnames with
  | @cons _ arg _ rest _ _ =>
    have hline : f.commandLine (arg :: rest) a ≠ [] := by
      simp [commandLine, flagged_ne_nil]
    obtain ⟨exe, tail, hcons⟩ := List.exists_cons_of_ne_nil hline
    unfold requestFor
    simp only [hroot, hargs, Run.mapError_ok, bind, Except.bind, hcons]
    exact ⟨_, rfl⟩

variable (f)

/-- What keeps the command of a target from being started. Looking around changes no tree, so `w'`
is `w` but for what has been said. -/
inductive Blocked (h : Host σ) (a : Action) (p : Path) (files : List Path) (scope : Scope)
    (w : World σ) : Prop
  | kind (hk : f.kind.serves a = false)
  | scope {e : Failure} {w' : World σ} (ht : w'.tree = w.tree)
      (he : ((f.checkScope p scope).go h w').1 = .error e)
  | unreadable {e : Failure} {w' : World σ} (ha : a = .tidy) (hs : scope ≠ .root)
      (ht : w'.tree = w.tree) (he : ((Snapshot.capture f.root p f.covers).go h w').1 = .error e)
  | request {e : Failure} (he : f.requestFor a p files scope = .error e)
  | stuck {r : Exec.Request} (hr : f.requestFor a p files scope = .ok r) (hs : r.Stuck h w)

/-- How a target ends that is taken up in `w`, and where it leads. -/
inductive Course (h : Host σ) (a : Action) (p : Path) (files : List Path) (scope : Scope)
    (w : World σ) : Except Failure (Option β) × World σ → Prop
  | skipped {w' : World σ} (ht : f.takes p files scope = false) (hw : Idle w w') :
      Course h a p files scope w (.ok none, w')
  | blocked {e : Failure} {w' : World σ} (hb : f.Blocked h a p files scope w) (hw : Idle w w') :
      Course h a p files scope w (.error e, w')
  | started {outcome : Except Failure (Option β)} {w' : World σ} {r : Exec.Request} {s : Spawn}
      (ht : f.takes p files scope = true) (hr : f.requestFor a p files scope = .ok r)
      (hs : r.Starts h w s) (hw : w'.starts = w.starts ++ [s]) (ho : outcome ≠ .ok none) :
      Course h a p files scope w (outcome, w')

variable {f} {a : Action} {p : Path} {files : List Path} {scope : Scope}

theorem Blocked.of_tree_eq (hb : f.Blocked h a p files scope w) (ht : w.tree = w'.tree) :
    f.Blocked h a p files scope w' := by
  cases hb with
  | kind hk => exact .kind hk
  | scope hw he => exact .scope (hw.trans ht) he
  | unreadable ha hs hw he => exact .unreadable ha hs (hw.trans ht) he
  | request he => exact .request he
  | stuck hr hs => exact .stuck hr (hs.of_tree_eq ht)

/-- Looking around first changes nothing about the course of a target. -/
theorem Course.of_idle {w₁ : World σ} {ends : Except Failure (Option β) × World σ} (hw₁ : Idle w w₁)
    (hc : f.Course h a p files scope w₁ ends) : f.Course h a p files scope w ends := by
  cases hc with
  | skipped ht hw => exact .skipped ht (hw₁.trans hw)
  | blocked hb hw => exact .blocked (hb.of_tree_eq hw₁.tree) (hw₁.trans hw)
  | started ht hr hs hw ho =>
    exact .started ht hr (hs.of_tree_eq hw₁.tree) (by rw [hw, hw₁.starts]) ho

theorem Course.then_idle {outcome : Except Failure (Option β)} {w₁ w₂ : World σ}
    (hc : f.Course h a p files scope w (outcome, w₁)) (hw₂ : Idle w₁ w₂) :
    f.Course h a p files scope w (outcome, w₂) := by
  cases hc with
  | skipped ht hw => exact .skipped ht (hw.trans hw₂)
  | blocked hb hw => exact .blocked hb (hw.trans hw₂)
  | started ht hr hs hw ho => exact .started ht hr hs (by rw [hw₂.starts, hw]) ho

theorem Course.map {x : Run σ (Option α)} (hc : f.Course h a p files scope w (x.go h w))
    (g : α → β) : f.Course h a p files scope w ((do return (← x).map g : Run σ (Option β)).go h w) := by
  rw [go_bind]
  generalize x.go h w = ends at hc ⊢
  cases hc with
  | skipped ht hw => exact .skipped ht hw
  | blocked hb hw => exact .blocked hb hw
  | @started outcome w' r s ht hr hs hw ho =>
    rcases outcome with e | _ | b
    · exact .started ht hr hs hw (by simp)
    · exact absurd rfl ho
    · exact .started ht hr hs hw (by simp)

/-- The start itself, and whatever is found out about it afterwards. -/
theorem course_start {k : Exec.Output → Run σ (Option β)} (ht : f.takes p files scope = true)
    (hk : ∀ o, Moves h Idle (k o)) (hsome : ∀ o, Gives h (· ≠ none) (k o)) (w : World σ) :
    f.Course h a p files scope w ((f.start a p files scope >>= k).go h w) := by
  cases hr : f.requestFor a p files scope with
  | error e =>
    have hstart : (f.start a p files scope).go h w = (.error e, w) := by
      rw [start, hr]
      rfl
    rw [go_bind_error hstart]
    exact .blocked (.request hr) (Idle.refl w)
  | ok r =>
    obtain ⟨_, w₁, hinfo, -, hw₁⟩ := yields_info (h := h) (a.title ++ " [" ++ summaryForLog files
      ++ "] with " ++ f.name ++ " in [" ++ (r.inDir.getD .here).text ++ "] using command ["
      ++ r.commandLine ++ "]") w
    have hstart : (f.start a p files scope).go h w = (Exec.run r).go h w₁ := by
      rw [start, hr, go_bind_ok (go_ofExcept_ok id r h w), go_bind_ok hinfo]
    refine Course.of_idle hw₁ ?_
    rcases Exec.run_starts r h w₁ with ⟨hstuck, e, he⟩ | ⟨s, hs, hw⟩
    · rw [go_bind_error (hstart.trans he)]
      exact .blocked (.stuck hr hstuck) (Idle.refl w₁)
    · rcases go_bind_cases (f.start a p files scope) k h w with
        ⟨e, w', hx, hgo⟩ | ⟨o, w', hx, hgo⟩
      · rw [hgo]
        rw [← hstart, hx] at hw
        exact .started ht hr hs hw (by simp)
      · rw [← hstart, hx] at hw
        have hends : ((k o).go h w').2.starts = w₁.starts ++ [s] := by rw [(hk o w').starts, hw]
        have hne : ((k o).go h w').1 ≠ .ok none := fun hnone => hsome o w' _ hnone rfl
        rw [hgo]
        exact .started ht hr hs hends hne

/-- What lints and tidies alike: the kind and the scope are checked, and the filter has to apply. -/
theorem course_checked {k : Run σ (Option β)}
    (hk : f.takes p files scope = true → ∀ w, f.Course h a p files scope w (k.go h w)) (w : World σ) :
    f.Course h a p files scope w ((do
      f.requireKind a
      f.checkScope p scope
      if ← f.applies p files scope then k else return none : Run σ (Option β)).go h w) := by
  cases hkind : f.kind.serves a with
  | false =>
    have hfail : (f.requireKind a).go h w = (.error (.filter (.wrongKind a f.name f.kind)), w) := by
      simp [requireKind, hkind]
    rw [go_bind_error hfail]
    exact .blocked (.kind hkind) (Idle.refl w)
  | true =>
    have hpass : (f.requireKind a).go h w = (.ok (), w) := by simp [requireKind, hkind]
    rw [go_bind_ok hpass]
    have hscope := f.idle_checkScope p scope (h := h) w
    rcases go_bind_cases (f.checkScope p scope) _ h w with ⟨e, w₁, hx, hgo⟩ | ⟨_, w₁, hx, hgo⟩
    · rw [hgo]
      rw [hx] at hscope
      exact .blocked (.scope rfl (by rw [hx])) hscope
    · rw [hgo]
      rw [hx] at hscope
      obtain ⟨b, w₂, happlies, rfl, hw₂⟩ := f.yields_applies p files scope (h := h) w₁
      rw [go_bind_ok happlies]
      refine Course.of_idle (hscope.trans hw₂) ?_
      cases htakes : f.takes p files scope with
      | false => exact .skipped htakes (Idle.refl w₂)
      | true => exact hk htakes w₂

theorem course_lint (p : Path) (files : List Path) (scope : Scope) (h : Host σ) (w : World σ) :
    f.Course h .lint p files scope w ((f.lint p files scope).go h w) :=
  course_checked (fun ht w => course_start ht (fun _ => moves_pure _)
    (fun _ => gives_pure (by simp)) w) w

theorem course_tidy (p : Path) (files : List Path) (scope : Scope) (h : Host σ) (w : World σ) :
    f.Course h .tidy p files scope w ((f.tidy p files scope).go h w) := by
  refine course_checked (fun ht w => ?_) w
  split
  · exact course_start ht (fun _ => moves_pure _) (fun _ => gives_pure (by simp)) w
  · next hroot =>
    have hcapture := Snapshot.idle_capture f.root p f.covers (h := h) w
    rcases go_bind_cases (Snapshot.capture f.root p f.covers) _ h w with
      ⟨e, w₁, hx, hgo⟩ | ⟨before, w₁, hx, hgo⟩
    · rw [hgo]
      rw [hx] at hcapture
      exact .blocked (.unreadable rfl hroot rfl (by rw [hx])) hcapture
    · rw [hgo]
      rw [hx] at hcapture
      refine Course.of_idle hcapture (course_start ht (fun _ => ?_) (fun _ => ?_) w₁)
      · exact (before.idle_changed _).bind fun _ => moves_pure _
      · exact .after _ fun _ => gives_pure (by simp)

section Steady

variable (hnote : ∀ e : Event, e.isNote = true → P e)

include hnote

theorem steady_checked {k : Run σ (Option β)} (hk : Moves h (Steady P) k) (a : Action) (p : Path)
    (files : List Path) (scope : Scope) : Moves h (Steady P) (do
      f.requireKind a
      f.checkScope p scope
      if ← f.applies p files scope then k else return none : Run σ (Option β)) := by
  have hkind : Moves h (Steady P) (f.requireKind a) := by
    unfold requireKind
    split
    · exact moves_pure _
    · exact moves_fail _
  refine hkind.bind fun _ => ((f.idle_checkScope p scope).mono fun _ _ hw => hw.steady hnote).bind
    fun _ => ?_
  refine ((f.yields_applies p files scope).idle.mono fun _ _ hw => hw.steady hnote).bind fun b => ?_
  exact hk.ite (moves_pure _)

variable (hspawned : ∀ s outcome, P (.spawned s outcome))

include hspawned

theorem steady_start (a : Action) (p : Path) (files : List Path) (scope : Scope) :
    Moves h (Steady P) (f.start a p files scope) :=
  (moves_ofExcept _ _).bind fun _ => ((yields_info _).idle.mono fun _ _ hw => hw.steady hnote).bind
    fun _ => Exec.steady_run hnote fun s outcome _ => hspawned s outcome

theorem steady_lint (p : Path) (files : List Path) (scope : Scope) :
    Moves h (Steady P) (f.lint p files scope) :=
  steady_checked hnote ((steady_start hnote hspawned _ p files scope).bind fun _ =>
    moves_pure _) _ p files scope

theorem steady_tidy (p : Path) (files : List Path) (scope : Scope) :
    Moves h (Steady P) (f.tidy p files scope) := by
  have hstart := steady_start hnote hspawned (f := f) (h := h) .tidy p files scope
  refine steady_checked hnote ?_ _ p files scope
  refine Moves.ite (hstart.bind fun _ => moves_pure _) ?_
  refine ((Snapshot.idle_capture _ _ _).mono fun _ _ hw => hw.steady hnote).bind fun before =>
    hstart.bind fun _ => ?_
  exact ((before.idle_changed _).mono fun _ _ hw => hw.steady hnote).bind fun _ => moves_pure _

end Steady

end LintRunner.Filter
