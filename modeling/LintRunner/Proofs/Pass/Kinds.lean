import LintRunner.Proofs.Filter.Kinds
import LintRunner.Proofs.Pass.Handed
import LintRunner.Proofs.Selection.Standing

/-! Targets of the wrong kind. As long as no command makes a file of a directory or the other way round,
each target is still what it was when the files were chosen. -/

namespace LintRunner

open World Run Pass

variable {σ : Type} {h : Host σ} {w w' : World σ} {a : Action} {files : List Path}

section Steps

variable {K : World σ → World σ → Prop} [IsPreorder (World σ) K] {f : Filter} {scope : Filter.Scope}
  {targets : List Target} {r : Reporter} {workers : Int} {fs : List Filter}

/-- What each attempt keeps is kept up to each of them, and up to the end. -/
theorem leads_attempts (hsteps : ∀ y ∈ attempts h a f scope w targets, K y.begun (y.left h a)) :
    (∀ y ∈ attempts h a f scope w targets, K w y.begun) ∧ K w (leftBy h a f scope w targets) := by
  induction targets generalizing w with
  | nil => exact ⟨by simp [attempts], refl_of K w⟩
  | cons t rest ih =>
    have hfirst : K w ((⟨f, scope, t, w⟩ : Attempt σ).left h a) := hsteps ⟨f, scope, t, w⟩ List.mem_cons_self
    obtain ⟨hrest, hleft⟩ := ih fun y hy => hsteps y (List.mem_cons_of_mem _ hy)
    refine ⟨fun y hy => ?_, trans_of K hfirst hleft⟩
    rcases List.mem_cons.1 hy with rfl | hy
    · exact refl_of K w
    · exact trans_of K hfirst (hrest y hy)

theorem leads_rounds (hidle : ∀ w w', Idle w w' → K w w')
    (hsteps : ∀ x ∈ rounds h a r workers files w fs, ∀ y ∈ x.attempts h a, K y.begun (y.left h a)) :
    ∀ x ∈ rounds h a r workers files w fs, ∀ y ∈ x.attempts h a, K w y.begun := by
  induction fs generalizing w with
  | nil => simp [rounds]
  | cons f rest ih =>
    have hw₁ := idle_announce (h := h) f w
    simp only [rounds] at hsteps ⊢
    generalize ((announce f).go h w).2 = w₁ at hw₁ hsteps ⊢
    have hopened : K w (Round.opened h files w₁ f).begun :=
      hidle _ _ (hw₁.trans (Round.idle_opened (h := h) files w₁ f))
    obtain ⟨hbegun, hleft⟩ := leads_attempts (hsteps _ List.mem_cons_self)
    -- a turn that cannot begin leaves the world as it was opened
    have hends : K w ((runFilter a r workers f files (Group.make files)).go h w₁).2 := by
      rcases go_runFilter a r workers f files h w₁ with ⟨e, -, hfail⟩ | ⟨w₂, hw₂, hturn⟩
      · rw [hfail]
        exact hopened
      · rw [hturn]
        exact trans_of K hopened (trans_of K hleft (hidle _ _ hw₂))
    intro x hx y hy
    rcases List.mem_cons.1 hx with rfl | hx
    · exact trans_of K hopened (hbegun y hy)
    · exact trans_of K hends (ih (fun x hx => hsteps x (List.mem_cons_of_mem _ hx)) x hx y hy)

end Steps

/-- The path leads to a file in both trees or in none, and to a directory in both or in none. -/
def FileTree.SameKind (here : Location) (t t' : FileTree) (p : Path) : Prop :=
  t'.isFile? here p = t.isFile? here p ∧ t'.isDirectory? here p = t.isDirectory? here p

/-- None of the paths has become one of another kind. -/
def World.KeepsKinds (here : Location) (ps : List Path) (w w' : World σ) : Prop :=
  ∀ p ∈ ps, FileTree.SameKind here w.tree w'.tree p

instance (here : Location) (ps : List Path) : IsPreorder (World σ) (KeepsKinds here ps) where
  refl _ _ _ := ⟨rfl, rfl⟩
  trans _ _ _ h₁ h₂ p hp := ⟨(h₂ p hp).1.trans (h₁ p hp).1, (h₂ p hp).2.trans (h₁ p hp).2⟩

theorem keepsKinds_of_idle {here : Location} {ps : List Path} (hw : Idle w w') :
    KeepsKinds here ps w w' := fun p _ => by simp [FileTree.SameKind, hw.tree]

/-- The chosen paths and the directories that they are in. -/
def Selector.places (s : Selector) (files : List Path) : List Path :=
  files.flatMap fun p => [s.root / p, s.root / p.parent]

/-- No command makes something else of a chosen path or of the directory that it is in. -/
def Selector.Undisturbed (s : Selector) (h : Host σ) (a : Action) (files : List Path)
    (turns : List (Round σ)) : Prop :=
  ∀ x ∈ turns, ∀ y ∈ x.attempts h a, KeepsKinds h.cwd (s.places files) y.begun (y.left h a)

instance (here : Location) (t t' : FileTree) (p : Path) : Decidable (FileTree.SameKind here t t' p) :=
  inferInstanceAs (Decidable (_ ∧ _))

instance (here : Location) (ps : List Path) (w w' : World σ) : Decidable (KeepsKinds here ps w w') :=
  inferInstanceAs (Decidable (∀ p ∈ ps, FileTree.SameKind here w.tree w'.tree p))

instance (s : Selector) (h : Host σ) (a : Action) (files : List Path) (turns : List (Round σ)) :
    Decidable (s.Undisturbed h a files turns) :=
  inferInstanceAs (Decidable (∀ x ∈ turns, ∀ y ∈ x.attempts h a,
    KeepsKinds h.cwd (s.places files) y.begun (y.left h a)))

/-- The target fails for its kind. -/
def Attempt.isRefused (h : Host σ) (a : Action) (y : Attempt σ) : Bool :=
  match y.ending h a with
  | .ok _ => false
  | .error e => e.isKind

theorem Attempt.isRefused_eq_true_iff {y : Attempt σ} :
    y.isRefused h a = true ↔ ∃ e, y.ending h a = .error e ∧ e.isKind = true := by
  unfold isRefused
  split
  · next hending => simp [hending]
  · next e hending => simp [hending]

theorem Attempt.refuses {y : Attempt σ} {e : Failure} (he : y.ending h a = .error e)
    (hkind : e.isKind = true) :
    y.filter.Refuses y.begun.tree h.cwd y.target.path y.scope e := by
  have hmap {β : Type} {x : Run σ (Option β)} {g : β → Result}
      (he : ((do return (← x).map g : Run σ (Option Result)).go h y.begun).1 = .error e) :
      (x.go h y.begun).1 = .error e := by
    rw [go_bind] at he
    rcases hx : x.go h y.begun with ⟨_ | _, _⟩
    · rw [hx] at he
      cases he
      rfl
    · rw [hx] at he
      cases he
  cases a with
  | lint => exact Filter.refuses_of_lint (hmap he) hkind
  | tidy => exact Filter.refuses_of_tidy (hmap he) hkind

namespace Selector

variable {s : Selector} {requested : List Path} {p : Path} {t : FileTree}

/-- The directory that a chosen path is in is no file. -/
theorem Standing.not_file_parent (hp : Standing s h w requested p) (hrel : p.anchor = .relative)
    (hproject : w.tree.isDirectory? h.cwd s.root = .ok true)
    (hfile : w.tree.isFile? h.cwd (s.root / p.parent) = .ok true) : s.Astray h w requested p := by
  have hno (hparent : w.tree.isDirectory? h.cwd (s.root / p.parent) = .ok true) :
      s.Astray h w requested p := by
    rw [FileTree.isFile?_of_isDirectory? hparent] at hfile
    cases hfile
  by_cases hparts : p.parts = []
  · refine hno ?_
    have hsame : s.root / p.parent = s.root := by
      have hparent : p.parent.anchor = .relative := hrel
      rw [Path.join_of_relative hparent]
      simp [Path.parent, hparts]
    rwa [hsame]
  · have hjoin := Path.parent_join (q := s.root) hrel hparts
    have hsome : (s.root / p).parts ≠ [] := by simp [Path.join_of_relative hrel, hparts]
    have habove {x : Location × Entry} (hs : w.tree.status h.cwd (s.root / p) = .ok x) :
        s.Astray h w requested p := by
      obtain ⟨l, hl⟩ := FileTree.status_parent hsome hs
      rw [hjoin] at hl
      exact hno (FileTree.isDirectory?_eq_true_iff.2 ⟨l, hl⟩)
    cases hp with
    | file hexists hfile =>
      obtain ⟨x, hs⟩ := FileTree.exists?_eq_true_iff.1 hexists
      exact habove hs
    | lost hgit heq hlink hlost =>
      rw [heq, Path.parent_child] at hjoin
      exact hno (hjoin ▸ hlink.isDirectory?)
    | directory hreported =>
      obtain ⟨l, hs⟩ := FileTree.isDirectory?_eq_true_iff.1 hreported.1
      exact habove hs
    | astray hastray => exact hastray

/-- A chosen path leads to a directory only if git has reported one. -/
theorem Standing.reported_or_astray (hp : Standing s h w requested p)
    (hdirectory : w.tree.isDirectory? h.cwd (s.root / p) = .ok true) :
    s.ReportedDirectory h w p ∨ s.Astray h w requested p := by
  cases hp with
  | file hexists hfile =>
    rw [hfile] at hdirectory
    cases hdirectory
  | lost hgit heq hlink hlost =>
    obtain ⟨l, hl⟩ := FileTree.isDirectory?_eq_true_iff.1 hdirectory
    exact absurd hl (hlost _)
  | directory hreported => exact .inl hreported
  | astray hastray => exact .inr hastray

end Selector

/-- A target of a turn over chosen files is refused for its kind only where git has reported a directory,
or where a path was named with `..` behind a link. -/
theorem refused_cases {s : Selector} {requested : List Path} {r : Reporter} {workers : Int}
    {fs : List Filter} (hchosen : s.Chosen files) (hstanding : ∀ p ∈ files, s.Standing h w requested p)
    (hproject : w.tree.isDirectory? h.cwd s.root = .ok true) (hfs : ∀ f ∈ fs, f.root = s.root)
    (hkinds : s.Undisturbed h a files (rounds h a r workers files w fs))
    {x : Round σ} (hx : x ∈ rounds h a r workers files w fs) {y : Attempt σ} (hy : y ∈ x.attempts h a)
    {e : Failure} (he : y.ending h a = .error e) (hkind : e.isKind = true) :
    ∃ p ∈ files, s.Astray h w requested p ∧ y.target.path = Target.pathOf y.scope p ∨
      s.ReportedDirectory h w p ∧ e = .filter (.filesOnly y.filter.name p) := by
  have hkept := leads_rounds (fun _ _ => keepsKinds_of_idle) hkinds x hx y hy
  obtain ⟨hxfs, hxfiles⟩ := of_mem_rounds h a r workers files hx
  obtain ⟨hf, hscope, htarget⟩ := of_mem_attempts h a x.filter x.scope hy
  have hroot : y.filter.root = s.root := by rw [hf, hfs _ hxfs]
  -- the tree that refuses the target still has the kinds of the tree that the files were chosen in
  rw [Round.targets, hxfiles, ← hscope] at htarget
  have hrefuses := Attempt.refuses he hkind
  generalize y.scope = scope at hrefuses htarget ⊢
  cases hrefuses with
  | file hfile =>
    obtain ⟨g, hg, heq⟩ := List.mem_map.1 htarget
    obtain ⟨p, hp, rfl⟩ := Group.mem_make.1 hg
    have hpath : y.target.path = p.parent := by rw [← heq]; rfl
    have hsame : FileTree.SameKind h.cwd w.tree y.begun.tree (s.root / p.parent) :=
      hkept _ (List.mem_flatMap.2 ⟨p, hp, by simp⟩)
    rw [hroot, hpath, hsame.1] at hfile
    exact ⟨p, hp, .inl ⟨(hstanding p hp).not_file_parent (hchosen.eligible p hp).relative hproject hfile,
      hpath⟩⟩
  | directory hdirectory =>
    obtain ⟨p, hp, heq⟩ := List.mem_map.1 htarget
    have hpath : y.target.path = p := by rw [← heq]; rfl
    have hsame : FileTree.SameKind h.cwd w.tree y.begun.tree (s.root / p) :=
      hkept _ (List.mem_flatMap.2 ⟨p, hp, by simp⟩)
    rw [hroot, hpath, hsame.2] at hdirectory
    rcases (hstanding p hp).reported_or_astray hdirectory with hreported | hastray
    · exact ⟨p, hp, .inr ⟨hreported, by rw [hpath]⟩⟩
    · exact ⟨p, hp, .inl ⟨hastray, hpath⟩⟩

namespace Sample

def submodule : Path := ⟨.relative, ["sub"]⟩

/-- What git reports is a directory, as it does for a submodule. -/
def submoduleWorld : World Script := world { git := [
  { args := ["rev-parse", "--show-toplevel"], outcome := .ok "/p" },
  { args := ["diff", "--name-only", "--diff-filter=ACM", "HEAD"], outcome := .ok "sub" }] }

/-- What git reports is chosen, and a linter that is started for each file refuses it. -/
theorem refused_submodule : ∃ s w₁ w' f,
    (Selector.start .modified root none [] none).go host submoduleWorld = (.ok s, w₁) ∧
    (s.select []).go host w₁ = (.ok (some [submodule]), w') ∧ w'.tree.Sound ∧
    w'.tree.isDirectory? host.cwd (s.root / submodule) = .ok true ∧
    w'.tree.isDirectory? host.cwd s.root = .ok true ∧ (∀ g ∈ [f], g.root = s.root) ∧
    s.Undisturbed host .lint [submodule] (rounds host .lint {} 1 [submodule] w' [f]) ∧
    ∃ x ∈ rounds host .lint {} 1 [submodule] w' [f], ∃ y ∈ x.attempts host .lint,
      y.isRefused host .lint = true := by
  have hruled : (Selector.start .modified root none [] none).comesTo host submoduleWorld (fun s w₁ =>
      (s.select []).comesTo host w₁ fun chosen w' =>
        (ofExcept id (Config.Loaded.buildFilter root "check" (command .lint "tool" []))).comesTo host w'
          fun f _ => decide (chosen = some [submodule] ∧ w'.tree.Sound ∧
            w'.tree.isDirectory? host.cwd (s.root / submodule) = .ok true ∧
            w'.tree.isDirectory? host.cwd s.root = .ok true ∧ (∀ g ∈ [f], g.root = s.root) ∧
            s.Undisturbed host .lint [submodule] (rounds host .lint {} 1 [submodule] w' [f]) ∧
            ∃ x ∈ rounds host .lint {} 1 [submodule] w' [f], ∃ y ∈ x.attempts host .lint,
              y.isRefused host .lint = true)) = true := by decide +kernel
  obtain ⟨s, w₁, hstart, hruled⟩ := of_comesTo hruled
  obtain ⟨chosen, w', hselect, hruled⟩ := of_comesTo hruled
  obtain ⟨f, -, -, hruled⟩ := of_comesTo hruled
  obtain ⟨rfl, hrefused⟩ := of_decide_eq_true hruled
  exact ⟨s, w₁, w', f, hstart, hselect, hrefused⟩

end Sample

namespace Selector

open Sample in
/-- Not only files are chosen, and a target can be refused for its kind although no command disturbs
anything. -/
theorem not_only_files :
    (¬ ∀ (h : Host Script) (w w₁ w' : World Script) (mode : Selection.Mode) (project : Path)
      (cwd : Option Path) (exclude : List String) (git : Option Git) (s : Selector)
      (requested files : List Path), w.tree.Sound →
      (start mode project cwd exclude git).go h w = (.ok s, w₁) →
      (s.select requested).go h w₁ = (.ok (some files), w') →
      ∀ p ∈ files, w'.tree.exists? h.cwd (s.root / p) = .ok true ∧
        w'.tree.isDirectory? h.cwd (s.root / p) = .ok false) ∧
    ¬ ∀ (h : Host Script) (w w₁ w' : World Script) (mode : Selection.Mode) (project : Path)
      (cwd : Option Path) (exclude : List String) (git : Option Git) (s : Selector)
      (requested files : List Path) (a : Action) (r : Reporter) (workers : Int) (fs : List Filter),
      w.tree.Sound →
      (start mode project cwd exclude git).go h w = (.ok s, w₁) →
      (s.select requested).go h w₁ = (.ok (some files), w') →
      w'.tree.isDirectory? h.cwd s.root = .ok true → (∀ f ∈ fs, f.root = s.root) →
      s.Undisturbed h a files (rounds h a r workers files w' fs) →
      ∀ x ∈ rounds h a r workers files w' fs, ∀ y ∈ x.attempts h a, y.isRefused h a = false := by
  obtain ⟨s, w₁, w', f, hstart, hselect, -, hdirectory, hproject, hfs, hkinds, x, hx, y, hy, hrefused⟩ :=
    refused_submodule
  have hsound : submoduleWorld.tree.Sound := by decide +kernel
  constructor
  · intro hall
    have hfile := (hall _ _ _ _ _ _ _ _ _ _ _ _ hsound hstart hselect submodule List.mem_cons_self).2
    rw [hdirectory] at hfile
    cases hfile
  · intro hall
    have hnone := hall _ _ _ _ _ _ _ _ _ _ _ _ .lint {} 1 [f] hsound hstart hselect hproject hfs hkinds
      x hx y hy
    rw [hrefused] at hnone
    cases hnone

variable {s : Selector} {requested : List Path} {mode : Selection.Mode} {root : Path} {cwd : Option Path}
  {exclude : List String} {git : Option Git} {w₀ w₁ : World σ}

/-- Only files are chosen, but for links that lead nowhere, directories that git reports and what is named
with `..` behind a link; and as long as no command disturbs what is chosen, only the last two are refused
for their kind. -/
theorem files_or_reported (hstart : (start mode root cwd exclude git).go h w₀ = (.ok s, w₁))
    (hw : w.TopResolved) (ht : w'.tree.Sound)
    (hselect : (s.select requested).go h w = (.ok (some files), w')) :
    (∀ p ∈ files, s.Standing h w' requested p) ∧
    ∀ (a : Action) (r : Reporter) (workers : Int) (fs : List Filter),
      w'.tree.isDirectory? h.cwd s.root = .ok true → (∀ f ∈ fs, f.root = s.root) →
      s.Undisturbed h a files (rounds h a r workers files w' fs) →
      ∀ x ∈ rounds h a r workers files w' fs, ∀ y ∈ x.attempts h a, ∀ e,
        y.ending h a = .error e → e.isKind = true →
        ∃ p ∈ files, s.Astray h w' requested p ∧ y.target.path = Target.pathOf y.scope p ∨
          s.ReportedDirectory h w' p ∧ e = .filter (.filesOnly y.filter.name p) := by
  have hstanding := standing_of_select hstart hw ht hselect
  refine ⟨hstanding, fun a r workers fs hproject hfs hkinds x hx y hy e he hkind => ?_⟩
  exact refused_cases (chosen_of_select hselect) hstanding hproject hfs hkinds hx hy he hkind

open Sample in
theorem files_or_reported_submodule : ∃ s w₁ w' f,
    (start .modified Sample.root none [] none).go host submoduleWorld = (.ok s, w₁) ∧ w₁.TopResolved ∧
    w'.tree.Sound ∧ (s.select []).go host w₁ = (.ok (some [submodule]), w') ∧
    w'.tree.isDirectory? host.cwd s.root = .ok true ∧ (∀ g ∈ [f], g.root = s.root) ∧
    s.Undisturbed host .lint [submodule] (rounds host .lint {} 1 [submodule] w' [f]) ∧
    s.Standing host w' [] submodule ∧
    ∃ x ∈ rounds host .lint {} 1 [submodule] w' [f], ∃ y ∈ x.attempts host .lint, ∃ e,
      y.ending host .lint = .error e ∧ e.isKind = true ∧
      ∃ p ∈ [submodule], s.Astray host w' [] p ∧ y.target.path = Target.pathOf y.scope p ∨
        s.ReportedDirectory host w' p ∧ e = .filter (.filesOnly y.filter.name p) := by
  obtain ⟨s, w₁, w', f, hstart, hselect, ht, -, hproject, hfs, hkinds, x, hx, y, hy, hrefused⟩ :=
    refused_submodule
  have hw : w₁.TopResolved := topResolved_of_start hstart
  obtain ⟨hstanding, hturns⟩ := files_or_reported hstart hw ht hselect
  obtain ⟨e, he, hkind⟩ := Attempt.isRefused_eq_true_iff.1 hrefused
  exact ⟨s, w₁, w', f, hstart, hw, ht, hselect, hproject, hfs, hkinds,
    hstanding submodule List.mem_cons_self, x, hx, y, hy, e, he, hkind,
    hturns .lint {} 1 [f] hproject hfs hkinds x hx y hy e he hkind⟩

end Selector

end LintRunner
