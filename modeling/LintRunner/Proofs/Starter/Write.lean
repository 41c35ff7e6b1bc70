import LintRunner.Proofs.Run.Furnish
import LintRunner.Proofs.Run.Matches
import LintRunner.Script
import LintRunner.Starter.Write

/-! Writing a starter configuration. The files are made one after the other, the configuration first; each
is left alone if something is there, or made whole where nothing was, with the directories that it needs.
Nothing is taken back when one of them fails, so what has been made before it stays, and so does what there
is of that one: a beginning of it, if its bytes could not all be written. -/

namespace LintRunner

variable {σ : Type} {h : Host σ} {w w' : World σ}

/-- A file that is to be there, with all that is to be in it. -/
structure Draft where
  path : Path
  bytes : ByteArray
  executable : Bool

namespace FileTree

variable {t t' t'' : FileTree} {here : Location} {d : Draft} {ds : List Draft} {f : Failure}

/-- The file has been made: in the directories that it needs, it is the only thing that is not as it was. If
no `..` is in its path, it is new. -/
inductive Created (here : Location) (d : Draft) (t t' : FileTree) : Prop where
  | intro {between : FileTree} {l : Location} {executable : Bool}
    (hdirs : Furnished here d.path.parent t between)
    (hplace : t'.status here d.path = .ok (l, .file d.bytes executable))
    (hothers : ∀ k, k ≠ l → t'.get? k = between.get? k)
    (hnew : ".." ∉ d.path.parts → between.get? l = none ∧ executable = d.executable)
    (hnested : t'.Nested)

/-- What becomes of one file. -/
inductive Placed (here : Location) (d : Draft) (t t' : FileTree) : Prop where
  | leftAlone (hthere : t.exists? here d.path = .ok true) (hsame : t' = t)
  | created (habsent : t.exists? here d.path = .ok false) (hcreated : Created here d t t')

/-- What becomes of one file after the other. -/
inductive Laid (here : Location) : List Draft → FileTree → FileTree → Prop where
  | nil (t : FileTree) : Laid here [] t t
  | cons {t t' t'' : FileTree} {d : Draft} {ds : List Draft} (hd : Placed here d t t')
    (hds : Laid here ds t' t'') : Laid here (d :: ds) t t''

/-- The file has been made, where nothing was. Only if its path led up from what was not there, it may have
taken the place of another, whose mode it then has. -/
inductive Filled (here : Location) (d : Draft) (t t' : FileTree) : Prop where
  | intro {between : FileTree} {l : Location} {executable : Bool}
    (hdirs : Furnished here d.path.parent t between)
    (hplace : t'.status here d.path = .ok (l, .file d.bytes executable))
    (hothers : ∀ k, k ≠ l → t'.get? k = between.get? k)
    (hbefore : between.get? l = none ∧ executable = d.executable ∨ ¬ t.Grounded here d.path ∧
      ∃ old x, between.get? l = some (.file old x) ∧ executable = (x || d.executable))
    (hnested : t'.Nested)

/-- The file was not there and has not been made as it is to be. The system refused it, or a directory on the
way to it; or its bytes, and it holds only the first of them; or its mode, and it cannot be executed. -/
inductive Refused (here : Location) (d : Draft) (t t' : FileTree) : Failure → Prop where
  | unopened {q : Path} {r : Refusal} (habsent : t.exists? here d.path ≠ .ok true)
    (hdirs : Furnished here d.path.parent t t') (hq : d.path.LiesIn q) :
    Refused here d t t' (Failure.ofRefusal q r)
  | cutShort {n : Nat} {errno : Errno} (habsent : t.exists? here d.path = .ok false)
    (hfilled : Filled here ⟨d.path, d.bytes.extract 0 n, false⟩ t t') :
    Refused here d t t' (.os ⟨errno, none⟩)
  | unmarked {r : Refusal} (habsent : t.exists? here d.path = .ok false) (hx : d.executable = true)
    (hfilled : Filled here ⟨d.path, d.bytes, false⟩ t t') :
    Refused here d t t' (Failure.ofRefusal d.path r)

/-- What becomes of one file; whether it has been made is the answer. -/
inductive Settled (here : Location) (d : Draft) (t t' : FileTree) : Bool → Prop where
  | leftAlone (hthere : t.exists? here d.path = .ok true) (hsame : t' = t) : Settled here d t t' false
  | made (habsent : t.exists? here d.path = .ok false) (hfilled : Filled here d t t') : Settled here d t t' true

/-- What becomes of one file after the other, with the answers. -/
inductive Lays (here : Location) : List (Draft × Bool) → FileTree → FileTree → Prop where
  | nil (t : FileTree) : Lays here [] t t
  | cons {t t' t'' : FileTree} {d : Draft} {b : Bool} {ds : List (Draft × Bool)}
    (hd : Settled here d t t' b) (hds : Lays here ds t' t'') : Lays here ((d, b) :: ds) t t''

theorem Filled.created (hfilled : Filled here d t t') : Created here d t t' := by
  obtain ⟨hdirs, hplace, hothers, hbefore, hnested⟩ := hfilled
  exact ⟨hdirs, hplace, hothers,
    fun hup => hbefore.resolve_right fun hover => hover.1 (grounded_of_not_up hup), hnested⟩

theorem Filled.grown (hfilled : Filled here d t t') (hgrounded : t.Grounded here d.path) : Grown t t' := by
  obtain ⟨hdirs, -, hothers, hbefore, -⟩ := hfilled
  exact hdirs.grown.outside (hbefore.resolve_right fun hover => hover.1 hgrounded).1 hothers

theorem Settled.placed {b : Bool} (hsettled : Settled here d t t' b) : Placed here d t t' := by
  cases hsettled with
  | leftAlone hthere hsame => exact .leftAlone hthere hsame
  | made habsent hfilled => exact .created habsent hfilled.created

theorem Lays.laid {ds : List (Draft × Bool)} (hlays : Lays here ds t t') :
    Laid here (ds.map (·.1)) t t' := by
  induction hlays with
  | nil t => exact .nil t
  | cons hd _ ih => exact .cons hd.placed ih

theorem Created.grown (hcreated : Created here d t t') (hup : ".." ∉ d.path.parts) : Grown t t' := by
  obtain ⟨hdirs, -, hothers, hnew, -⟩ := hcreated
  exact hdirs.grown.outside (hnew hup).1 hothers

theorem Placed.grown (hplaced : Placed here d t t') (hup : ".." ∉ d.path.parts) : Grown t t' := by
  cases hplaced with
  | leftAlone _ hsame =>
    subst hsame
    exact Grown.refl _
  | created _ hcreated => exact hcreated.grown hup

theorem Placed.exists? (hplaced : Placed here d t t') : t'.exists? here d.path = .ok true := by
  cases hplaced with
  | leftAlone hthere hsame =>
    subst hsame
    exact hthere
  | created _ hcreated =>
    obtain ⟨-, hplace, -⟩ := hcreated
    exact exists?_eq_true_iff.2 ⟨_, hplace⟩

theorem Placed.nested (hplaced : Placed here d t t') (ht : t.Nested) : t'.Nested := by
  cases hplaced with
  | leftAlone _ hsame =>
    subst hsame
    exact ht
  | created _ hcreated =>
    obtain ⟨-, -, -, -, hnested⟩ := hcreated
    exact hnested

theorem Laid.grown (hlaid : Laid here ds t t') (hup : ∀ d ∈ ds, ".." ∉ d.path.parts) : Grown t t' := by
  induction hlaid with
  | nil => exact Grown.refl _
  | cons hd _ ih =>
    rw [List.forall_mem_cons] at hup
    exact (hd.grown hup.1).trans (ih hup.2)

theorem Laid.exists? (hlaid : Laid here ds t t') (hup : ∀ d ∈ ds, ".." ∉ d.path.parts) :
    ∀ d ∈ ds, t'.exists? here d.path = .ok true := by
  induction hlaid with
  | nil => simp
  | cons hd hds ih =>
    rw [List.forall_mem_cons] at hup ⊢
    exact ⟨(hds.grown hup.2).exists? hd.exists?, ih hup.2⟩

theorem Refused.absent (hrefused : Refused here d t t' f) : t.exists? here d.path ≠ .ok true := by
  cases hrefused with
  | unopened habsent => exact habsent
  | cutShort habsent => simp [habsent]
  | unmarked habsent => simp [habsent]

theorem Refused.grown (hrefused : Refused here d t t' f) (hgrounded : t.Grounded here d.path) :
    Grown t t' := by
  cases hrefused with
  | unopened _ hdirs => exact hdirs.grown
  | cutShort _ hfilled => exact hfilled.grown hgrounded
  | unmarked _ _ hfilled => exact hfilled.grown hgrounded

/-- Of what was there, and of what was made before one file was refused, nothing is lost. -/
theorem Laid.kept (hlaid : Laid here ds t t') (hrefused : Refused here d t' t'' f)
    (hup : ∀ d ∈ ds, ".." ∉ d.path.parts) (hd : ".." ∉ d.path.parts) :
    Grown t t'' ∧ ∀ d ∈ ds, t''.exists? here d.path = .ok true := by
  have hgrown := hrefused.grown (grounded_of_not_up hd)
  exact ⟨(hlaid.grown hup).trans hgrown, fun _ hmade => hgrown.exists? (hlaid.exists? hup _ hmade)⟩

/-- Whatever bytes get into a file once it is open are all that it holds. -/
theorem filled_of_openFile {p : Path} {t₁ t₂ : FileTree} (hnested : t.Nested)
    (habsent : t.exists? here p = .ok false) (hdirs : Furnished here p.parent t t₁)
    (hstands : Stands here p.parent t t₁) (hopened : t₁.openFile here p = .ok t₂) (bytes : ByteArray) :
    Filled here ⟨p, bytes, false⟩ t (t₂.refill here p bytes) := by
  obtain ⟨l, executable, hempty, hsame, hkeeps, hnew⟩ := of_openFile hopened
  obtain ⟨hplace, hothers, hstays⟩ := of_refill hempty bytes
  refine ⟨hdirs, hplace, fun k hk => (hothers k hk).trans (hsame k hk), ?_,
    hstays (hkeeps (hdirs.nested hnested))⟩
  rcases hnew with ⟨hnone, rfl⟩ | ⟨old, hold⟩
  · exact .inl ⟨hnone, rfl⟩
  · obtain ⟨-, hwalk, hfile⟩ := status_eq_ok_iff.1 hold
    refine .inr ⟨fun hgrounded => ?_, old, executable, hfile, by simp⟩
    -- The old file would have been found before, or it would lie in a directory in which there is nothing.
    obtain ⟨k, hk, hempty⟩ := hstands
    rcases hempty hgrounded.parent hnested with rfl | hvacant
    · rw [exists?_eq_true_iff.2 ⟨_, hold⟩] at habsent
      cases habsent
    · obtain rfl := eq_of_vacant hk hvacant ((hdirs.nested hnested).name_ne_up hold) hwalk
      cases hfile.symm.trans (status_eq_ok_iff.1 hk).2.2

/-- A file that has been made may be made executable in the end. -/
theorem Filled.allowExecution (hfilled : Filled here { d with executable := false } t t') :
    ∃ t'', t'.allowExecution here d.path = .ok t'' ∧ Filled here { d with executable := true } t t'' := by
  obtain ⟨hdirs, hplace, hothers, hbefore, hnested⟩ := hfilled
  obtain ⟨hp, hfile⟩ := place?_of_status hplace
  refine ⟨_, allowExecution_of_status hplace, hdirs,
    status_put_file hp (.inr ⟨_, _, hfile⟩) d.bytes true, fun k hk => ?_, ?_, hnested.put_over hfile _⟩
  · rw [← hothers k hk]
    exact ((alike_put (.inr ⟨_, _, hfile⟩) d.bytes true).outside k hk).symm
  · rcases hbefore with ⟨hnone, -⟩ | ⟨hlost, old, x, hold, -⟩
    · exact .inl ⟨hnone, rfl⟩
    · exact .inr ⟨hlost, old, x, hold, by simp⟩

end FileTree

namespace Starter

open FileTree Run

theorem go_writeText (p : Path) (text : String) (hnested : w.tree.Nested)
    (habsent : w.tree.exists? h.cwd p = .ok false) :
    (∃ t, (writeText p text).go h w = (.ok (), { w with tree := t }) ∧
        Filled h.cwd ⟨p, text.toUTF8, false⟩ w.tree t) ∨
      ∃ e t, (writeText p text).go h w = (.error e, { w with tree := t }) ∧
        ∀ executable, Refused h.cwd ⟨p, text.toUTF8, executable⟩ w.tree t e := by
  have hno : w.tree.exists? h.cwd p ≠ .ok true := by simp [habsent]
  unfold writeText
  obtain ⟨r, t, hmake, hfurnishes⟩ := furnishes_makeDirectories p.parent h w
  cases hfurnishes with
  | refused hdirs hq => exact .inr ⟨_, t, go_bind_error hmake _, fun _ => .unopened hno hdirs hq.of_parent⟩
  | stands hdirs hstands =>
    rw [go_bind_ok hmake, Run.write]
    rcases go_changeTree .openFile FileTree.openFile p h { w with tree := t } with
      ⟨t₁, hopened, hgo⟩ | ⟨r, hgo, -⟩
    · have hfilled := filled_of_openFile hnested habsent hdirs hstands hopened
      rw [go_bind_ok hgo]
      simp only [go_bind, go_world, go_host]
      cases h.breaksOff? p text.toUTF8 t₁ w.mind with
      | none => exact .inl ⟨_, rfl, hfilled _⟩
      | some stop => exact .inr ⟨_, _, rfl, fun _ => .cutShort habsent (hfilled _)⟩
    · exact .inr ⟨_, t, go_bind_error hgo _, fun _ => .unopened hno hdirs (Path.liesIn_self p)⟩

/-- A file that has been made is given its mode, if it is to have one that it has not. -/
theorem go_allowExecution {d : Draft} {t : FileTree} (habsent : t.exists? h.cwd d.path = .ok false)
    (hfilled : Filled h.cwd { d with executable := false } t w.tree) :
    (∃ t', (do
        if d.executable then Run.allowExecution d.path
        return true : Run σ Bool).go h w = (.ok true, { w with tree := t' }) ∧ Filled h.cwd d t t') ∨
      ∃ e, (do
        if d.executable then Run.allowExecution d.path
        return true : Run σ Bool).go h w = (.error e, w) ∧ Refused h.cwd d t w.tree e := by
  obtain ⟨p, bytes, executable⟩ := d
  cases executable with
  | false => exact .inl ⟨w.tree, rfl, hfilled⟩
  | true =>
    obtain ⟨t', hallow, hfilled'⟩ := Filled.allowExecution hfilled
    rcases go_changeTree .allowExecution FileTree.allowExecution p h w with ⟨t₁, hallowed, hgo⟩ | ⟨r, hgo, -⟩
    · cases hallow.symm.trans hallowed
      exact .inl ⟨t', go_bind_ok hgo _, hfilled'⟩
    · exact .inr ⟨_, go_bind_error hgo _, .unmarked habsent rfl hfilled⟩

/-- What a support file is to be. -/
def SupportFile.draft (cwd : Path) (f : SupportFile) : Draft :=
  ⟨cwd / f.path, (withEnds f.lines).toUTF8, f.executable⟩

theorem go_writeSupport (cwd : Path) (f : SupportFile) (hnested : w.tree.Nested) :
    (∃ b t, (writeSupport cwd f).go h w = (.ok b, { w with tree := t }) ∧
        Settled h.cwd (f.draft cwd) w.tree t b) ∨
      ∃ e t, (writeSupport cwd f).go h w = (.error e, { w with tree := t }) ∧
        Refused h.cwd (f.draft cwd) w.tree t e := by
  unfold writeSupport
  dsimp only
  rw [go_bind, Run.exists?, go_askTree]
  cases hthere : w.tree.exists? h.cwd (cwd / f.path) with
  | error r =>
    exact .inr ⟨_, w.tree, rfl, .unopened (by simp [SupportFile.draft, hthere]) .same (Path.liesIn_self _)⟩
  | ok b =>
    cases b with
    | true => exact .inl ⟨false, w.tree, rfl, .leftAlone hthere rfl⟩
    | false =>
      dsimp only [mapError_ok]
      rw [if_neg (by simp)]
      rcases go_writeText (cwd / f.path) (withEnds f.lines) hnested hthere with
        ⟨t, hgo, hfilled⟩ | ⟨e, t, hgo, hrefused⟩
      · rcases go_allowExecution (w := { w with tree := t }) (d := f.draft cwd) hthere hfilled with
          ⟨t', hallow, hfilled'⟩ | ⟨e, hallow, hrefused⟩
        · exact .inl ⟨true, t', (go_bind_ok hgo _).trans hallow, .made hthere hfilled'⟩
        · exact .inr ⟨e, t, (go_bind_ok hgo _).trans hallow, hrefused⟩
      · exact .inr ⟨e, t, go_bind_error hgo _, hrefused f.executable⟩

/-- The configuration itself, as the first of the files. -/
def configDraft (config : Path) (components : List Component) (cwd : Path) : Draft :=
  ⟨cwd / config, (render (distinct components)).toUTF8, false⟩

/-- All the files that a configuration is to bring with it, itself first, in the order in which they are
made. -/
def drafts (config : Path) (components : List Component) (cwd : Path) : List Draft :=
  ⟨cwd / config, (render (distinct components)).toUTF8, false⟩ ::
    (supportOf (distinct components)).map (·.draft cwd)

/-- Support files with what has become of them, as drafts. -/
def marked (cwd : Path) (marks : List (SupportFile × Bool)) : List (Draft × Bool) :=
  marks.map fun m => (m.1.draft cwd, m.2)

/-- Writing all support files, and what the tree is when one of them is refused. -/
theorem go_supports (cwd : Path) (files : List SupportFile) (hnested : w.tree.Nested) :
    (∃ marks t, (files.mapM fun f => return (f.path, ← writeSupport cwd f)).go h w =
        (.ok (marks.map fun m => (m.1.path, m.2)), { w with tree := t }) ∧
        marks.map (·.1) = files ∧ Lays h.cwd (marked cwd marks) w.tree t) ∨
      ∃ e t front f back t₁, (files.mapM fun f => return (f.path, ← writeSupport cwd f)).go h w =
        (.error e, { w with tree := t }) ∧ files = front.map (·.1) ++ f :: back ∧
        Lays h.cwd (marked cwd front) w.tree t₁ ∧ Refused h.cwd (f.draft cwd) t₁ t e := by
  induction files generalizing w with
  | nil => exact .inl ⟨[], w.tree, rfl, rfl, .nil _⟩
  | cons f files ih =>
    rw [List.mapM_cons, bind_assoc]
    rcases go_writeSupport cwd f hnested with ⟨b, t, hf, hsettled⟩ | ⟨e, t, hf, hrefused⟩
    · rw [go_bind_ok hf, pure_bind]
      rcases ih (w := { w with tree := t }) (hsettled.placed.nested hnested) with
        ⟨marks, t', hrest, rfl, hlays⟩ | ⟨e, t', front, f', back, t₁, hrest, rfl, hlays, hrefused⟩
      · exact .inl ⟨(f, b) :: marks, t', by rw [go_bind_ok hrest]; rfl, rfl, .cons hsettled hlays⟩
      · exact .inr ⟨e, t', (f, b) :: front, f', back, t₁, go_bind_error hrest _, rfl,
          .cons hsettled hlays, hrefused⟩
    · exact .inr ⟨e, t, [], f, files, w.tree, go_bind_error hf _, rfl, .nil _, hrefused⟩

/-- All the ways in which writing a configuration can end. -/
inductive Ends (here : Location) (config : Path) (components : List Component) (cwd : Path)
    (t t' : FileTree) : Except Failure Written → Prop where
  | already (hthere : t.exists? here (cwd / config) = .ok true) (hsame : t' = t) :
    Ends here config components cwd t t' (.error (.config (.alreadyThere config)))
  | refused {e : Failure} (hrefused : Refused here (configDraft config components cwd) t t' e) :
    Ends here config components cwd t t' (.error e)
  | short {e : Failure} {t₁ t₂ : FileTree} {front : List (SupportFile × Bool)} {f : SupportFile}
    {back : List SupportFile} (habsent : t.exists? here (cwd / config) = .ok false)
    (hconfig : Filled here (configDraft config components cwd) t t₁)
    (hfiles : supportOf (distinct components) = front.map (·.1) ++ f :: back)
    (hlays : Lays here (marked cwd front) t₁ t₂) (hrefused : Refused here (f.draft cwd) t₂ t' e) :
    Ends here config components cwd t t' (.error e)
  | whole {t₁ : FileTree} {marks : List (SupportFile × Bool)}
    (habsent : t.exists? here (cwd / config) = .ok false)
    (hconfig : Filled here (configDraft config components cwd) t t₁)
    (hfiles : marks.map (·.1) = supportOf (distinct components))
    (hlays : Lays here (marked cwd marks) t₁ t') :
    Ends here config components cwd t t' (.ok {
      config, components := distinct components
      written := (marks.filter (·.2)).map (·.1.path)
      skipped := (marks.filter (!·.2)).map (·.1.path)
      tools := distinct ((distinct components).flatMap Component.tools) })

theorem ends_write {config cwd : Path} {components : List Component} {r : Except Failure Written}
    (hnested : w.tree.Nested) (hgo : (write config components cwd).go h w = (r, w')) :
    Ends h.cwd config components cwd w.tree w'.tree r := by
  unfold write at hgo
  dsimp only at hgo
  rw [go_bind, Run.exists?, go_askTree] at hgo
  cases hthere : w.tree.exists? h.cwd (cwd / config) with
  | error r =>
    rw [hthere] at hgo
    cases hgo
    exact .refused (.unopened (by simp [configDraft, hthere]) .same (Path.liesIn_self _))
  | ok b =>
    rw [hthere] at hgo
    cases b with
    | true =>
      cases hgo
      exact .already hthere rfl
    | false =>
      dsimp only [mapError_ok] at hgo
      rw [if_neg (by simp)] at hgo
      rcases go_writeText (cwd / config) (render (distinct components)) hnested hthere with
        ⟨t, hwrite, hfilled⟩ | ⟨e, t, hwrite, hrefused⟩
      · rw [go_bind_ok hwrite, debug] at hgo
        obtain ⟨w₁, hlog, hsilent, -⟩ := go_log .debug ("Wrote " ++ (cwd / config).text ++ " for " ++
          ", ".intercalate ((distinct components).map (·.text))) h { w with tree := t }
        rw [go_bind_ok hlog] at hgo
        obtain rfl : w₁.tree = t := hsilent.tree
        have hnested₁ : w₁.tree.Nested := (Placed.created hthere hfilled.created).nested hnested
        rcases go_supports cwd (supportOf (distinct components)) hnested₁ with
          ⟨marks, t', hrest, hfiles, hlays⟩ | ⟨e, t', front, f, back, t₁, hrest, hfiles, hlays, hrefused⟩
        · rw [go_bind_ok hrest] at hgo
          cases hgo
          simp only [List.filter_map, List.map_map]
          exact .whole hthere hfilled hfiles hlays
        · rw [go_bind_error hrest] at hgo
          cases hgo
          exact .short hthere hfilled hfiles hlays hrefused
      · rw [go_bind_error hwrite] at hgo
        cases hgo
        exact .refused (hrefused false)

theorem go_write_error {config cwd : Path} {components : List Component} {e : Failure}
    (hnested : w.tree.Nested) (hgo : (write config components cwd).go h w = (.error e, w')) :
    (e = .config (.alreadyThere config) ∧ w.tree.exists? h.cwd (cwd / config) = .ok true ∧
        w'.tree = w.tree) ∨
      w.tree.exists? h.cwd (cwd / config) ≠ .ok true ∧
        ∃ front d back t, drafts config components cwd = front ++ d :: back ∧
          Laid h.cwd front w.tree t ∧ Refused h.cwd d t w'.tree e := by
  cases ends_write hnested hgo with
  | already hthere hsame => exact .inl ⟨rfl, hthere, hsame⟩
  | refused hrefused => exact .inr ⟨hrefused.absent, [], _, _, w.tree, rfl, .nil _, hrefused⟩
  | @short _ t₁ t₂ front f back habsent hconfig hfiles hlays hrefused =>
    have hlaid : Laid h.cwd (front.map (·.1.draft cwd)) t₁ t₂ := by
      simpa [marked, Function.comp_def] using hlays.laid
    refine .inr ⟨by simp [habsent], _ :: front.map (·.1.draft cwd), f.draft cwd,
      back.map (·.draft cwd), t₂, ?_, .cons (.created habsent hconfig.created) hlaid, hrefused⟩
    rw [drafts, hfiles, List.map_append, List.map_map]
    rfl

theorem exists_of_mem_supportOf {components : List Component} {f : SupportFile}
    (hf : f ∈ supportOf components) : ∃ c ∈ components, f ∈ c.support := by
  obtain ⟨p, -, hfind⟩ := List.mem_filterMap.1 hf
  exact List.mem_flatMap.1 (List.mem_of_find?_eq_some hfind)

theorem relative_support {c : Component} {f : SupportFile} (hf : f ∈ c.support) :
    f.path.anchor = .relative := by
  have hall : ∀ c : Component, ∀ f ∈ c.support, f.path.anchor = .relative := by
    intro c
    cases c <;> decide
  exact hall c f hf

theorem up_not_mem_support {components : List Component} {f : SupportFile}
    (hf : f ∈ supportOf components) : ".." ∉ f.path.parts := by
  obtain ⟨c, -, hc⟩ := exists_of_mem_supportOf hf
  have hall : ∀ c : Component, ∀ f ∈ c.support, ".." ∉ f.path.parts := by
    intro c
    cases c <;> decide
  exact hall c f hc

theorem up_not_mem_drafts {config cwd : Path} {components : List Component} {d : Draft}
    (hconfig : ".." ∉ config.parts) (hcwd : ".." ∉ cwd.parts) (hd : d ∈ drafts config components cwd) :
    ".." ∉ d.path.parts := by
  rcases List.mem_cons.1 hd with rfl | hd
  · exact Path.not_mem_join hcwd hconfig
  · obtain ⟨f, hf, rfl⟩ := List.mem_map.1 hd
    exact Path.not_mem_join hcwd (up_not_mem_support hf)

/-- Where it ends with a failure, either something was in the place of the configuration, and nothing has
changed. Or one file after the other has been left alone or has been made whole until one of them was
refused; apart from these there is nothing new but directories on the way to that one and what there is of
it, and where no path leads up again, all that was there before is as it was. -/
theorem write_stops {config cwd : Path} {components : List Component} {e : Failure}
    (hnested : w.tree.Nested) (hgo : (write config components cwd).go h w = (.error e, w')) :
    (e = .config (.alreadyThere config) ∧ w.tree.exists? h.cwd (cwd / config) = .ok true ∧
        w'.tree = w.tree) ∨
      w.tree.exists? h.cwd (cwd / config) ≠ .ok true ∧
        ∃ front d back t, drafts config components cwd = front ++ d :: back ∧
          Laid h.cwd front w.tree t ∧ Refused h.cwd d t w'.tree e ∧
          (".." ∉ config.parts → ".." ∉ cwd.parts → Grown w.tree w'.tree ∧
            ∀ f ∈ front, w'.tree.exists? h.cwd f.path = .ok true) := by
  rcases go_write_error hnested hgo with hthere | ⟨hno, front, d, back, t, hdrafts, hlaid, hrefused⟩
  · exact .inl hthere
  · refine .inr ⟨hno, front, d, back, t, hdrafts, hlaid, hrefused, fun hconfig hcwd => ?_⟩
    have hup : ∀ f ∈ front ++ d :: back, ".." ∉ f.path.parts :=
      hdrafts ▸ fun f => up_not_mem_drafts hconfig hcwd
    exact hlaid.kept hrefused (fun f hf => hup f (List.mem_append_left _ hf)) (hup d (by simp))

namespace Occupied

/-- A file is in the way of a directory that a support file of Go needs. -/
def before : World Script :=
  ⟨⟨[(["p"], .directory), (["p", "dev"], .file .empty false)]⟩, {}, [], {}, .warning⟩

def host : Host Script := Script.host ["p"] [] false false

/-- There is room for nine bytes of each file. -/
def full : Host Script := { host with breaksOff? := fun _ _ _ _ => some (9, ⟨28, by decide⟩) }

def root : Path := ⟨.root, ["p"]⟩

def config : Path := ⟨.relative, ["gemlint.toml"]⟩

theorem write_fails : ∃ e w', (write config [.go] root).go host before = (.error e, w') ∧
    (w'.tree.get? ["p", "gemlint.toml"]).isSome = true := by
  have hends : (match (write config [.go] root).go host before with
      | (.error _, w') => (w'.tree.get? ["p", "gemlint.toml"]).isSome
      | (.ok _, _) => false) = true := by decide +kernel
  split at hends
  · next e w' hgo => exact ⟨e, w', hgo, hends⟩
  · cases hends

end Occupied

open Occupied in
theorem write_stops_occupied : before.tree.Nested ∧ ∃ e w',
    (write config [.go] root).go host before = (.error e, w') ∧
      ∃ front d back t, drafts config [.go] root = front ++ d :: back ∧
        Laid host.cwd front before.tree t ∧ Refused host.cwd d t w'.tree e ∧
        Grown before.tree w'.tree ∧ ∀ f ∈ front, w'.tree.exists? host.cwd f.path = .ok true := by
  have hnested : before.tree.Nested := by decide
  obtain ⟨e, w', hgo, -⟩ := write_fails
  refine ⟨hnested, e, w', hgo, ?_⟩
  rcases write_stops hnested hgo with ⟨-, hthere, -⟩ | ⟨-, front, d, back, t, hdrafts, hlaid, hrefused, hkept⟩
  · have hno : before.tree.exists? host.cwd (root / config) = .ok false := by decide
    cases hno.symm.trans hthere
  · exact ⟨front, d, back, t, hdrafts, hlaid, hrefused, hkept (by decide) (by decide)⟩

open Occupied in
/-- When the disk is full, the configuration is left with as much of it as there was room for. -/
example : ((write config [] root).go full before).2.tree.get? ["p", "gemlint.toml"] =
    some (.file ((render []).toUTF8.extract 0 9) false) := by decide +kernel

open Occupied in
/-- The configuration stays, although the file that it needs cannot be made. -/
theorem not_write_all_or_nothing : ¬ ∀ (config cwd : Path) (components : List Component)
    (h : Host Script) (w w' : World Script) (e : Failure),
    (write config components cwd).go h w = (.error e, w') → w'.tree = w.tree := by
  intro hall
  obtain ⟨e, w', hgo, hthere⟩ := write_fails
  have hnone : before.tree.get? ["p", "gemlint.toml"] = none := by decide
  rw [hall _ _ _ _ _ _ _ hgo, hnone] at hthere
  cases hthere

end Starter

end LintRunner
