import LintRunner.Proofs.Ignore.Walk
import LintRunner.Proofs.Run.Matches
import LintRunner.Proofs.Run.Reads

/-! One walk with two accounts of its files. The directories it looks into and the files it comes to depend on
the tree alone, so both accounts get the same files in the same order; and if the walk fails, it fails for both
alike. Nothing is asked of the ignore files here. -/

namespace LintRunner

variable {σ α β γ : Type} {h : Host σ} {t : FileTree}

namespace Run

variable {R : α → β → Prop} {P : α → Prop}

/-- Wherever the tree is `t`, the run comes to the same. -/
abbrev Fixed (h : Host σ) (t : FileTree) (x : Run σ α) : Prop := Repeats h t t (fun _ => True) x

theorem fixed_pure (a : α) : Fixed h t (pure a) := matches_pure ⟨rfl, trivial⟩

theorem Fixed.bind {x : Run σ α} {f : α → Run σ γ} (hx : Fixed h t x) (hf : ∀ a, Fixed h t (f a)) :
    Fixed h t (x >>= f) := Matches.bind hx fun a _ hab => hab.1 ▸ hf a

theorem Fixed.matches {x : Run σ γ} {f : γ → Run σ α} {g : γ → Run σ β} (hx : Fixed h t x)
    (hf : ∀ c, Matches h t t R (f c) (g c)) : Matches h t t R (x >>= f) (x >>= g) :=
  Matches.bind hx fun c _ hc => hc.1 ▸ hf c

theorem fixed_log (level : Level) (message : String) : Fixed h t (log level message) :=
  (matches_log level message).mono fun _ _ _ => ⟨rfl, trivial⟩

theorem fixed_tree : Fixed h t tree := matches_tree.mono fun _ _ hab => ⟨hab.1.trans hab.2.symm, trivial⟩

theorem fixed_here : Fixed h t here := matches_here.mono fun _ _ hab => ⟨hab.1.trans hab.2.symm, trivial⟩

theorem fixed_askTree (ask : FileTree → Location → Path → Except Refusal α) (p : Path) :
    Fixed h t (askTree ask p) := (repeats_askTree rfl).mono fun _ _ hab => ⟨hab.1, trivial⟩

theorem fixed_resolve (p : Path) : Fixed h t (resolve p) := by
  rintro w w' rfl hw'
  rw [go_resolve, go_resolve, hw']
  refine ⟨?_, World.Silent.refl w, World.Silent.refl w'⟩
  cases FileTree.resolve w.tree h.cwd p with
  | ok q => exact .value ⟨rfl, trivial⟩
  | error e => exact .failure _

theorem Fixed.attempt {x : Run σ α} (hx : Fixed h t x) : Fixed h t (attempt x) := by
  intro w w' hw hw'
  obtain ⟨hends, hsilent, hsilent'⟩ := hx w w' hw hw'
  exact ⟨.value ⟨hends.eq_of_common, trivial⟩, hsilent, hsilent'⟩

theorem Fixed.mapM {f : α → Run σ γ} (hf : ∀ a, Fixed h t (f a)) (as : List α) : Fixed h t (as.mapM f) :=
  (Repeats.mapM fun a _ => hf a).mono fun _ _ hbs => ⟨hbs.1, trivial⟩

theorem Fixed.filterM {f : α → Run σ Bool} (hf : ∀ a, Fixed h t (f a)) (as : List α) :
    Fixed h t (as.filterM f) := (Repeats.filterM fun a _ => hf a).mono fun _ _ hbs => ⟨hbs.1, trivial⟩

theorem Fixed.findM? {f : α → Run σ Bool} (hf : ∀ a, Fixed h t (f a)) (as : List α) :
    Fixed h t (as.findM? f) := by
  induction as with
  | nil => exact fixed_pure none
  | cons a as ih =>
    rw [List.findM?]
    refine (hf a).bind fun b => ?_
    cases b with
    | true => exact fixed_pure (some a)
    | false => exact ih

theorem Matches.foldlM {f : α → γ → Run σ α} {g : β → γ → Run σ β}
    (hstep : ∀ a b c, R a b → Matches h t t R (f a c) (g b c)) (cs : List γ) {a : α} {b : β} (hab : R a b) :
    Matches h t t R (cs.foldlM f a) (cs.foldlM g b) := by
  induction cs generalizing a b with
  | nil => exact matches_pure hab
  | cons c cs ih =>
    rw [List.foldlM_cons, List.foldlM_cons]
    exact (hstep a b c hab).bind fun a b hab => ih hab

/-- What is known of the first of the two values can be added. -/
theorem Matches.and_reads {x : Run σ α} {y : Run σ β} (hxy : Matches h t t R x y) (hx : Reads h t P x) :
    Matches h t t (fun a b => R a b ∧ P a) x y := by
  intro w w' hw hw'
  obtain ⟨hends, hsilent⟩ := hxy w w' hw hw'
  have hvalue := (hx w hw).value
  refine ⟨?_, hsilent⟩
  revert hends hvalue
  generalize (x.go h w).1 = r, (y.go h w').1 = r'
  intro hends hvalue
  cases hends with
  | value hab => exact .value ⟨hab, hvalue _ rfl⟩
  | failure e => exact .failure e

/-- Where the first finds a value, so does the second. -/
theorem Matches.finds {x : Run σ α} {y : Run σ β} {a : α} (hxy : Matches h t t R x y) (hx : Finds h t x a)
    {w : World σ} (hw : w.tree = t) : ∃ b w', y.go h w = (.ok b, w') ∧ R a b := by
  obtain ⟨hends, -, -⟩ := hxy w w hw hw
  obtain ⟨w₁, hgo, -⟩ := hx w hw
  rw [hgo] at hends
  rcases hy : y.go h w with ⟨r, w'⟩
  rw [hy] at hends
  cases hends with
  | value hab => exact ⟨_, w', rfl, hab⟩

end Run

open Run

namespace IgnoreFile

theorem fixed_readLines (source : Path) (lines : List String) : Fixed h t (readLines source lines) := by
  induction lines with
  | nil => exact fixed_pure _
  | cons line rest ih =>
    unfold readLines
    split
    · exact ih.bind fun _ => fixed_pure _
    · exact (fixed_log _ _).bind fun _ => ih
    · exact matches_fail _

theorem fixed_load (source directory : Path) : Fixed h t (load source directory) := by
  refine (fixed_askTree _ _).attempt.bind fun r => ?_
  split
  · exact (fixed_log _ _).bind fun _ => fixed_pure _
  · exact matches_fail _
  · exact (fixed_readLines _ _).bind fun _ => fixed_pure _

theorem fixed_release (f : IgnoreFile) (start : Path) : Fixed h t (f.release start) :=
  .ite (fun _ => fixed_pure _) fun _ => (fixed_log _ _).bind fun _ => fixed_pure _

end IgnoreFile

namespace Walker

theorem fixed_start (root : Path) : Fixed h t (Walker.start root) :=
  (Fixed.findM? (fun _ => fixed_askTree _ _) _).bind fun _ => fixed_pure _

theorem fixed_loadIfFile (source directory : Path) : Fixed h t (loadIfFile source directory) :=
  (fixed_askTree _ _).bind fun _ => .ite
    (fun _ => (IgnoreFile.fixed_load _ _).bind fun _ => fixed_pure _) fun _ => fixed_pure _

variable (v : Walker)

theorem fixed_rulesIn (directory : Path) : Fixed h t (v.rulesIn directory) := by
  have hown (forGit : List IgnoreFile) : Fixed h t (do
      return forGit ++ (← loadIfFile (directory.child ".ignore") directory)) :=
    (fixed_loadIfFile _ _).bind fun _ => fixed_pure _
  unfold rulesIn
  split
  · exact (fixed_loadIfFile _ _).bind hown
  · exact (fixed_pure _).bind hown

theorem fixed_inherited (base : Path) : Fixed h t (v.inherited base) := by
  have hbelow (own : List IgnoreFile) (directories : List Path) :
      Fixed h t (do return own ++ (← directories.mapM v.rulesIn).flatten) :=
    (Fixed.mapM v.fixed_rulesIn directories).bind fun _ => fixed_pure _
  unfold inherited
  split
  · refine (fixed_loadIfFile _ _).bind fun own => ?_
    split
    · exact fixed_pure own
    · exact hbelow own _
  · refine (fixed_pure _).bind fun own => ?_
    split
    · exact fixed_pure own
    · exact hbelow own _

theorem fixed_listing (directory : Path) : Fixed h t (listing directory) := by
  refine fixed_tree.bind fun t' => fixed_here.bind fun l => ?_
  split
  · exact fixed_tree.bind fun _ => fixed_pure _
  · exact fixed_pure _

theorem fixed_admits (rules : List IgnoreFile) (directory : Path) : Fixed h t (admits rules directory) :=
  .ite (fun _ => fixed_pure _) fun _ => .ite
    (fun _ => (fixed_log _ _).bind fun _ => fixed_pure _) fun _ => fixed_pure _

section Accounts

variable {R : α → β → Prop} {f : α → Path → Run σ α} {g : β → Path → Run σ β}
  (hstep : ∀ a b p, R a b → Matches h t t R (f a p) (g b p))

include hstep

theorem matches_foldBelow (levels : Nat) (rules : List IgnoreFile) (directory : Path) {a : α} {b : β}
    (hab : R a b) : Matches h t t R (v.foldBelow f levels rules directory a)
      (v.foldBelow g levels rules directory b) := by
  induction levels generalizing rules directory a b with
  | zero => exact matches_pure hab
  | succ levels ih =>
    unfold foldBelow
    refine (fixed_listing directory).matches fun entries => (v.fixed_rulesIn directory).matches fun own =>
      fixed_tree.matches fun t' => fixed_here.matches fun l => ?_
    exact (Fixed.filterM (fun e => fixed_admits _ _) _).matches fun kept =>
      (Matches.foldlM hstep _ hab).bind fun a b hab =>
        Matches.foldlM (fun a b (e : String × Entry) hab => ih _ (directory.child e.1) hab) _ hab

theorem matches_foldFiles (base : Path) {a : α} {b : β} (hab : R a b) :
    Matches h t t R (v.foldFiles f base a) (v.foldFiles g base b) :=
  (v.fixed_inherited base).matches fun _ =>
    (Fixed.mapM (fun rules => rules.fixed_release base) _).matches fun rules => fixed_tree.matches fun _ =>
      v.matches_foldBelow hstep _ rules base hab

end Accounts

end Walker

end LintRunner
