import LintRunner.Proofs.Pass.Attempts
import LintRunner.Proofs.Snapshot

/-! Whether tidying changed anything is told exactly, where the command ends well and leaves in place of
each file looked at a file or nothing. Nothing means no entry of that name: where the way there is no
longer one through directories, finding out ends in an error. -/

namespace LintRunner

open World Run

variable {σ : Type} {h : Host σ} {w w' : World σ} {after : FileTree}

namespace Exec

variable {r : Request}

/-- The tree that the command leaves, where it is started in `w` and ends well. -/
def Request.leaves? (r : Request) (h : Host σ) (w : World σ) : Option FileTree :=
  match lookup? w.tree h.cwd r.exe (searchPath (overlay h.env r.env)),
    w.tree.resolve h.cwd (r.inDir.getD ⟨.root, h.cwd⟩) with
  | some exe, .ok cwd =>
    match h.spawn ⟨exe :: r.args, cwd, overlay h.env r.env⟩ w.tree w.mind with
    | (.ok c, after, _) => if (classify r c).isOk then some after else none
    | _ => none
  | _, _ => none

theorem Request.exists_of_leaves? (hr : r.leaves? h w = some after) : ∃ exe cwd c mind o,
    lookup? w.tree h.cwd r.exe (searchPath (overlay h.env r.env)) = some exe ∧
    w.tree.resolve h.cwd (r.inDir.getD ⟨.root, h.cwd⟩) = .ok cwd ∧
    h.spawn ⟨exe :: r.args, cwd, overlay h.env r.env⟩ w.tree w.mind = (.ok c, after, mind) ∧
    classify r c = .ok o := by
  unfold leaves? at hr
  split at hr
  · next exe cwd hexe hcwd =>
    split at hr
    · next c after' mind hspawn =>
      cases ho : classify r c with
      | error e => simp [ho, Except.isOk, Except.toBool] at hr
      | ok o =>
        simp only [ho, Except.isOk, Except.toBool, if_true, Option.some.injEq] at hr
        exact ⟨exe, cwd, c, mind, o, hexe, hcwd, hr ▸ hspawn, ho⟩
    · cases hr
  · cases hr

theorem Request.leaves?_of_still (r : Request) (hw : Still w w') : r.leaves? h w' = r.leaves? h w := by
  unfold leaves?
  rw [hw.tree, hw.mind]

theorem finds_logEnd (r : Request) (c : Completed) {t : FileTree} : Finds h t (logEnd r c) () := by
  have hstderr : Finds h t
      (if c.stderr ≠ "" then debug ("Stderr was:\n" ++ c.stderr) else pure ()) () := by
    split
    · exact finds_debug _
    · exact finds_pure ()
  unfold logEnd
  split
  · exact finds_debug _
  · refine (finds_debug _).bind ?_
    dsimp only
    split
    · split
      · exact (finds_debug _).bind hstderr
      · exact hstderr
    · exact finds_pure ()

theorem run_leaves (hr : r.leaves? h w = some after) :
    ∃ o w', (Exec.run r).go h w = (.ok o, w') ∧ w'.tree = after := by
  obtain ⟨exe, cwd, c, mind, o, hexe, hcwd, hspawn, ho⟩ := r.exists_of_leaves? hr
  have hresolve : (resolve (r.inDir.getD ⟨.root, h.cwd⟩)).go h w = (.ok cwd, w) := by
    rw [go_resolve, hcwd]
    rfl
  obtain ⟨w₁, hdebug, hw₁⟩ := finds_debug (h := h)
    ("Running command [" ++ r.commandLine ++ "] with cwd = " ++ cwd.text) w rfl
  obtain ⟨w₂, hstarted, hw₂⟩ : ∃ w₂, (spawn ⟨exe :: r.args, cwd, overlay h.env r.env⟩).go h w₁ =
      (.ok c, w₂) ∧ w₂.tree = after := by
    rw [← hw₁.tree, ← hw₁.mind] at hspawn
    simp only [spawn, go_bind, go_host, go_world, hspawn, go_change, go_record, go_ofExcept_ok]
    exact ⟨_, rfl, rfl⟩
  obtain ⟨w₃, hend, hw₃⟩ := finds_logEnd r c w₂ hw₂
  refine ⟨o, w₃, ?_, hw₃.tree.trans hw₂⟩
  simp only [Exec.run, go_bind_ok (go_host h w), go_bind_ok (go_tree h w), go_bind_ok (go_here h w),
    hexe, go_bind_ok (go_cwd h w), go_bind_ok hresolve]
  rw [go_bind_ok hdebug, go_bind_ok hstarted, go_bind_ok hend, ho]
  rfl

end Exec

namespace Filter

variable {f : Filter} {p : Path} {files : List Path} {scope : Scope}

theorem start_leaves {a : Action} {r : Exec.Request} (hr : f.requestFor a p files scope = .ok r)
    (hc : r.leaves? h w = some after) :
    ∃ o w', (f.start a p files scope).go h w = (.ok o, w') ∧ w'.tree = after := by
  obtain ⟨w₁, hinfo, hw₁⟩ := finds_info (h := h) (a.title ++ " [" ++ summaryForLog files
    ++ "] with " ++ f.name ++ " in [" ++ (r.inDir.getD .here).text ++ "] using command ["
    ++ r.commandLine ++ "]") w rfl
  rw [start, hr, go_bind_ok (go_ofExcept_ok id r h w), go_bind_ok hinfo]
  exact Exec.run_leaves ((r.leaves?_of_still hw₁).trans hc)

theorem still_applies (p : Path) (files : List Path) (scope : Scope) :
    Moves h Still (f.applies p files scope) := by
  have hdirectory : Moves h Still (f.appliesToDirectory p files) := by
    unfold appliesToDirectory
    refine ((still_debug _).bind fun _ => moves_pure _).ite ((moves_pure _).ite ?_)
    split
    · exact (still_debug _).bind fun _ => moves_pure _
    · exact (still_debug _).bind fun _ => moves_pure _
  cases scope with
  | files => exact ((still_debug _).bind fun _ => moves_pure _).ite (moves_pure _)
  | dirs => exact hdirectory
  | root => exact hdirectory

theorem finds_applies (htakes : f.takes p files scope = true) {t : FileTree} :
    Finds h t (f.applies p files scope) true := by
  have hyields := f.yields_applies p files scope (h := h)
  rw [htakes] at hyields
  exact hyields.finds (still_applies p files scope)

variable (f)

/-- What the target of a scope has to be. -/
def IsTarget (t : FileTree) (here : Location) (p : Path) : Scope → Prop
  | .files => t.isFile? here (f.root / p) = .ok true
  | .dirs => t.isDirectory? here (f.root / p) = .ok true
  | .root => True

/-- In `t`, `q` is a file in scope with these bytes: the target itself, or a member of the directory
that the filter is for. -/
def Watches (t : FileTree) (here : Location) (p : Path) : Scope → Path → ByteArray → Prop
  | .files, q, bytes => q = f.root / p ∧ t.contentAt here q = some bytes
  | .dirs, q, bytes => Snapshot.Member t here f.root (f.root / p) f.covers q bytes
  | .root, _, _ => False

/-- The files in scope are not the same with the same bytes, or the directory is none any more. -/
def Altered (t t' : FileTree) (here : Location) (p : Path) (scope : Scope) : Prop :=
  (¬ ∀ q bytes, f.Watches t here p scope q bytes ↔ f.Watches t' here p scope q bytes) ∨
    scope = .dirs ∧ t'.isDirectory? here (f.root / p) = .ok false

/-- A directory of the project of which all can be told, before and afterwards. -/
structure Comparable (t t' : FileTree) (here : Location) (p : Path) : Prop where
  inside : ∃ below, (f.root / p).relativeTo? f.root = some below
  before : t.Askable here (f.root / p)
  after : t'.Askable here (f.root / p)
  directory : ∃ b, t'.isDirectory? here (f.root / p) = .ok b

/-- The filter is for the target, and its command ends well and leaves `after`. -/
structure Tidies (h : Host σ) (p : Path) (files : List Path) (scope : Scope) (w : World σ)
    (after : FileTree) : Prop where
  serves : f.kind.serves .tidy = true
  takes : f.takes p files scope = true
  target : f.IsTarget w.tree h.cwd p scope
  command : ∃ r, f.requestFor .tidy p files scope = .ok r ∧ r.leaves? h w = some after
  sound : w.tree.Sound
  sound_after : after.Sound
  comparable : scope = .dirs → f.Comparable w.tree after h.cwd p

variable {f}

theorem finds_checkScope {t : FileTree} (htarget : f.IsTarget t h.cwd p scope) :
    Finds h t (f.checkScope p scope) () := by
  cases scope with
  | files => exact (finds_askTree (FileTree.isDirectory?_of_isFile? htarget)).bind (finds_pure ())
  | dirs => exact (finds_askTree (FileTree.isFile?_of_isDirectory? htarget)).bind (finds_pure ())
  | root => exact finds_pure ()

/-- The snapshot taken before the command, and what it tells of the tree the command leaves. -/
theorem exists_snapshot {t t' : FileTree} (ht : t.Sound) (ht' : t'.Sound) (hscope : scope ≠ .root)
    (htarget : f.IsTarget t h.cwd p scope)
    (hdirs : scope = .dirs → f.Comparable t t' h.cwd p)
    (hcaptured : ∀ q bytes, f.Watches t h.cwd p scope q bytes → Snapshot.GoneOrFile t' h.cwd q) :
    ∃ before answer, Finds h t (Snapshot.capture f.root p f.covers) before ∧
      Finds h t' (before.changed f.covers) answer ∧
      (answer = true ↔ f.Altered t t' h.cwd p scope) := by
  cases scope with
  | root => exact absurd rfl hscope
  | files =>
    obtain ⟨bytes, hbytes⟩ := FileTree.exists_contentAt htarget
    refine ⟨_, _, Snapshot.finds_capture_file hbytes,
      Snapshot.finds_changed_file (hcaptured _ bytes ⟨rfl, hbytes⟩) bytes, ?_⟩
    have hfiles : f.Altered t t' h.cwd p .files ↔
        ¬ ∀ q content, (q = f.root / p ∧ t.contentAt h.cwd q = some content) ↔
          (q = f.root / p ∧ t'.contentAt h.cwd q = some content) := by
      simp [Altered, Watches]
    rw [hfiles, Bool.not_eq_true', ← Bool.not_eq_true, not_iff_not, FileTree.hasContent_iff]
    constructor
    · intro hsame q content
      refine and_congr_right fun hq => ?_
      rw [hq, hbytes, hsame]
    · intro hall
      exact ((hall _ bytes).1 ⟨rfl, hbytes⟩).2
  | dirs =>
    obtain ⟨hinside, hbefore, hafter, b, hb⟩ := hdirs rfl
    obtain ⟨answer, hchanged, hanswer⟩ :=
      Snapshot.finds_changed_directory ht ht' hb hafter hinside hcaptured
    refine ⟨_, answer, Snapshot.finds_capture_directory ht htarget hbefore hinside, hchanged, ?_⟩
    rw [hanswer, Altered, hb]
    simp [Watches]

/-- Where the command of a tidier ends well, the outcome tells exactly whether the files in scope are
the same with the same bytes. -/
theorem tidy_exact (ht : f.Tidies h p files scope w after)
    (hcaptured : ∀ q bytes, f.Watches w.tree h.cwd p scope q bytes →
      Snapshot.GoneOrFile after h.cwd q) :
    ∃ outcome w', (f.tidy p files scope).go h w = (.ok (some outcome), w') ∧ w'.tree = after ∧
      (scope = .root → outcome = .indeterminate) ∧
      (scope ≠ .root → f.Altered w.tree after h.cwd p scope → outcome = .changed) ∧
      (scope ≠ .root → ¬ f.Altered w.tree after h.cwd p scope → outcome = .unchanged) := by
  obtain ⟨r, hr, hleaves⟩ := ht.command
  have hpass : (f.requireKind .tidy).go h w = (.ok (), w) := by simp [requireKind, ht.serves]
  obtain ⟨w₁, hscope, hw₁⟩ := finds_checkScope ht.target w rfl
  obtain ⟨w₂, happlies, hw₂⟩ := finds_applies ht.takes w₁ hw₁.tree
  have hstill := hw₁.trans hw₂
  rw [tidy, go_bind_ok hpass, go_bind_ok hscope, go_bind_ok happlies, if_pos rfl]
  by_cases hroot : scope = .root
  · obtain ⟨o, w₃, hstart, htree⟩ := start_leaves hr ((r.leaves?_of_still hstill).trans hleaves)
    rw [if_pos hroot, go_bind_ok hstart]
    exact ⟨_, w₃, rfl, htree, fun _ => rfl, fun hne => absurd hroot hne, fun hne => absurd hroot hne⟩
  · obtain ⟨before, answer, hcapture, hchanged, hanswer⟩ :=
      exists_snapshot ht.sound ht.sound_after hroot ht.target ht.comparable hcaptured
    obtain ⟨w₃, hcaptures, hw₃⟩ := hcapture w₂ hstill.tree
    obtain ⟨o, w₄, hstart, hw₄⟩ :=
      start_leaves hr ((r.leaves?_of_still (hstill.trans hw₃)).trans hleaves)
    obtain ⟨w₅, hanswers, hw₅⟩ := hchanged w₄ hw₄
    rw [if_neg hroot, go_bind_ok hcaptures, go_bind_ok hstart, go_bind_ok hanswers]
    refine ⟨_, w₅, rfl, hw₅.tree.trans hw₄, fun hyes => absurd hyes hroot, fun _ hyes => ?_,
      fun _ hno => ?_⟩
    · rw [if_pos (hanswer.2 hyes)]
    · rw [if_neg (mt hanswer.1 hno)]

end Filter

namespace Sample

def sub : Path := ⟨.relative, ["sub"]⟩

/-- A world in which the tool puts an entry at a path. -/
def putting (tree : FileTree) (p : Path) (e : Entry) : World Script :=
  ⟨tree, { processes := [{ effects := { plants := [(p, e)] } }] }, [], {}, .warning⟩

/-- The tree that a tidier of the directory `sub` leaves, if nothing stands in its way. -/
def tidied? (f : Filter) (w : World Script) : Option FileTree :=
  match f.requestFor .tidy sub [subFile] .dirs with
  | .ok r =>
    if f.kind.serves .tidy ∧ f.takes sub [subFile] .dirs = true ∧ f.root = root ∧
        w.tree.isDirectory? host.cwd (root / sub) = .ok true then r.leaves? host w
    else none
  | .error _ => none

theorem tidies_sub {f : Filter} {w : World Script} (hafter : tidied? f w = some after)
    (ht : w.tree.Sound ∧ w.tree.ShortLinks) (ht' : after.Sound ∧ after.ShortLinks)
    (hdir : ∃ b, after.isDirectory? host.cwd (root / sub) = .ok b) :
    f.Tidies host sub [subFile] .dirs w after := by
  unfold tidied? at hafter
  split at hafter
  · next r hr =>
    split at hafter
    · next hready =>
      obtain ⟨hserves, htakes, hroot, htarget⟩ := hready
      have hinside : ∃ below, (root / sub).relativeTo? root = some below := ⟨sub, by decide⟩
      rw [← hroot] at htarget hdir hinside
      exact ⟨hserves, htakes, htarget, ⟨r, hr, hafter⟩, ht.1, ht'.1, fun _ =>
        ⟨hinside, ht.2.askable ht.1 _ _, ht'.2.askable ht'.1 _ _, hdir⟩⟩
    · cases hafter
  · cases hafter

/-- The tool writes one more file. -/
def growing : World Script := putting tree ⟨.relative, ["sub", "c.py"]⟩ (.file .empty false)

/-- The directory is a link, and the tool makes it one to a file. -/
def relinking : World Script := putting ⟨[(["p"], .directory), (["p", "real"], .directory),
  (["p", "real", "b.py"], .file .empty false), (["p", "other"], .file .empty false),
  (["p", "sub"], .link "real"), (["bin"], .directory), (["bin", "tool"], .file .empty true)]⟩
  sub (.link "other")

end Sample

namespace Filter

open Sample

theorem tidy_exact_grown : ∃ f after w',
    Config.Loaded.buildFilter Sample.root "format" (command .tidy "tool" []) = .ok f ∧
    f.Tidies host sub [subFile] .dirs growing after ∧
    (∀ q bytes, f.Watches growing.tree host.cwd sub .dirs q bytes →
      Snapshot.GoneOrFile after host.cwd q) ∧
    f.Altered growing.tree after host.cwd sub .dirs ∧
    (f.tidy sub [subFile] .dirs).go host growing = (.ok (some .changed), w') := by
  have hready : (match Config.Loaded.buildFilter Sample.root "format" (command .tidy "tool" []) with
      | .ok f =>
        match tidied? f growing with
        | some after =>
          let new := (f.root / sub).child "c.py"
          decide ((growing.tree.Sound ∧ growing.tree.ShortLinks) ∧
            (after.Sound ∧ after.ShortLinks) ∧
            after.isDirectory? host.cwd (Sample.root / sub) = .ok true ∧
            (∀ q ∈ Snapshot.members growing.tree host.cwd (f.root / sub),
              (after.contentAt host.cwd q).isSome = true) ∧
            new ∈ Snapshot.members after host.cwd (f.root / sub) ∧
            Snapshot.wants after host.cwd f.root f.covers new = true ∧
            growing.tree.contentAt host.cwd new = none)
        | none => false
      | .error _ => false) = true := by decide +kernel
  split at hready
  · next f hf =>
    split at hready
    · next after hafter =>
      obtain ⟨hbefore, hsound, hdir, hkept, hnew, hwants, hmissing⟩ := of_decide_eq_true hready
      have htidies := tidies_sub hafter hbefore hsound ⟨true, hdir⟩
      have hcaptured : ∀ q bytes, f.Watches growing.tree host.cwd sub .dirs q bytes →
          Snapshot.GoneOrFile after host.cwd q := fun q bytes hq =>
        .inr (Option.isSome_iff_exists.1 (hkept q ((Snapshot.member_iff hbefore.1).1 hq).1))
      have haltered : f.Altered growing.tree after host.cwd sub .dirs := by
        refine .inl fun hall => ?_
        obtain ⟨bytes, hbytes⟩ := Option.isSome_iff_exists.1 (Bool.and_eq_true_iff.1 hwants).1
        have hold := (hall _ _).2 ((Snapshot.member_iff hsound.1).2 ⟨hnew, hwants, hbytes⟩)
        cases hmissing.symm.trans hold.content
      obtain ⟨outcome, w', hgo, -, -, hchanged, -⟩ := tidy_exact htidies hcaptured
      rw [hchanged (by decide) haltered] at hgo
      exact ⟨f, after, w', hf, htidies, hcaptured, haltered, hgo⟩
    · cases hready
  · cases hready

/-- It is not told where no file is left in place of those looked at, because the directory has become
a link to a file. -/
theorem tidy_not_exact : ¬ ∀ (h : Host Script) (f : Filter) (p : Path) (files : List Path)
    (scope : Scope) (w : World Script) (after : FileTree),
    f.Tidies h p files scope w after → scope ≠ .root →
    (∀ q bytes, f.Watches w.tree h.cwd p scope q bytes →
      after.exists? h.cwd q = .ok false ∨ ∃ bytes, after.contentAt h.cwd q = some bytes) →
    f.Altered w.tree after h.cwd p scope →
    ∃ w', (f.tidy p files scope).go h w = (.ok (some .changed), w') := by
  have hready : (match Config.Loaded.buildFilter Sample.root "format" (command .tidy "tool" []) with
      | .ok f =>
        match tidied? f relinking with
        | some after => decide ((relinking.tree.Sound ∧ relinking.tree.ShortLinks) ∧
            (after.Sound ∧ after.ShortLinks) ∧
            after.isDirectory? host.cwd (Sample.root / sub) = .ok false ∧
            after.isDirectory? host.cwd (f.root / sub) = .ok false ∧
            (∀ q ∈ Snapshot.members relinking.tree host.cwd (f.root / sub),
              after.exists? host.cwd q = .ok false) ∧
            ((f.tidy sub [subFile] .dirs).go host relinking).1.isOk = false)
        | none => false
      | .error _ => false) = true := by decide +kernel
  intro hall
  split at hready
  · next f hf =>
    split at hready
    · next after hafter =>
      obtain ⟨hbefore, hsound, hdir, hgone, habsent, herror⟩ := of_decide_eq_true hready
      have htidies := tidies_sub hafter hbefore hsound ⟨false, hdir⟩
      obtain ⟨w', hgo⟩ := hall host f sub [subFile] .dirs relinking after htidies (by decide)
        (fun q bytes hq => .inl (habsent q ((Snapshot.member_iff hbefore.1).1 hq).1))
        (.inr ⟨rfl, hgone⟩)
      rw [hgo] at herror
      cases herror
    · cases hready
  · cases hready

end Filter

end LintRunner
