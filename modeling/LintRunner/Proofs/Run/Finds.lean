import LintRunner.Proofs.Run.Idle

/-! Runs whose outcome the tree alone decides. `Finds h t act a`: wherever the tree is `t`, `act` ends
with `a`, and between the worlds before and after lies no more than what was said. -/

namespace LintRunner

variable {σ α β : Type} {h : Host σ} {t : FileTree} {w w' w'' : World σ}

namespace World

/-- Besides what `Idle` leaves alone, whatever answers for processes, git and the clock. -/
structure Still (w w' : World σ) : Prop extends Idle w w' where
  mind : w'.mind = w.mind

theorem Still.refl (w : World σ) : Still w w := ⟨Idle.refl w, rfl⟩

theorem Still.trans (h₁ : Still w w') (h₂ : Still w' w'') : Still w w'' :=
  ⟨h₁.toIdle.trans h₂.toIdle, h₂.mind.trans h₁.mind⟩

instance : IsPreorder (World σ) Still where
  refl := Still.refl
  trans _ _ _ := Still.trans

theorem still_record {e : Event} (he : e.isNote = true) (w : World σ) : Still w (w.record e) :=
  ⟨idle_record he w, rfl⟩

end World

open World

namespace Run

theorem still_log (level : Level) (message : String) : Moves h Still (log level message) := by
  intro w
  change Still w (if w.verbosity.shows level then w.record (.logged level message) else w)
  split
  · exact still_record rfl w
  · exact Still.refl w

theorem still_debug (message : String) : Moves h Still (debug message) := still_log _ _

def Finds (h : Host σ) (t : FileTree) (act : Run σ α) (a : α) : Prop :=
  ∀ w, w.tree = t → ∃ w', act.go h w = (.ok a, w') ∧ Still w w'

theorem Finds.unique {act : Run σ α} {a b : α} (ha : Finds h t act a) (hb : Finds h t act b)
    (hw : w.tree = t) : a = b := by
  obtain ⟨_, hgo, -⟩ := ha w hw
  obtain ⟨_, hgo', -⟩ := hb w hw
  cases hgo.symm.trans hgo'
  rfl

theorem finds_pure (a : α) : Finds h t (pure a) a := fun w _ => ⟨w, rfl, Still.refl w⟩

theorem finds_tree : Finds h t tree t := by
  rintro w rfl
  exact ⟨w, rfl, Still.refl w⟩

theorem finds_here : Finds h t here h.cwd := fun w _ => ⟨w, rfl, Still.refl w⟩

theorem finds_log (level : Level) (message : String) : Finds h t (log level message) () :=
  fun w _ => ⟨_, rfl, still_log (h := h) level message w⟩

theorem finds_debug (message : String) : Finds h t (debug message) () := finds_log _ _

theorem finds_info (message : String) : Finds h t (info message) () := finds_log _ _

theorem finds_ofExcept {ε : Type} {toFailure : ε → Failure} {x : Except ε α} {a : α}
    (hx : x = .ok a) : Finds h t (ofExcept toFailure x) a := by
  subst hx
  exact finds_pure a

/-- A run that ends with `a` everywhere and says no more than it has to. -/
theorem Yields.finds {act : Run σ α} {a : α} (hact : Yields h (· = a) act)
    (hstill : Moves h Still act) : Finds h t act a := by
  intro w _
  obtain ⟨_, w', hgo, rfl, -⟩ := hact w
  have hw := hstill w
  rw [hgo] at hw
  exact ⟨w', hgo, hw⟩

theorem Finds.bind {x : Run σ α} {f : α → Run σ β} {a : α} {b : β} (hx : Finds h t x a)
    (hf : Finds h t (f a) b) : Finds h t (x >>= f) b := by
  intro w hw
  obtain ⟨w₁, hxw, hw₁⟩ := hx w hw
  obtain ⟨w₂, hfw, hw₂⟩ := hf w₁ (hw₁.tree.trans hw)
  exact ⟨w₂, by rw [go_bind_ok hxw, hfw], hw₁.trans hw₂⟩

theorem Finds.attempt {act : Run σ α} {a : α} (hact : Finds h t act a) :
    Finds h t (attempt act) (.ok a) := by
  intro w hw
  obtain ⟨w', hgo, hw'⟩ := hact w hw
  exact ⟨w', by rw [go_attempt, hgo], hw'⟩

theorem finds_askTree {ask : FileTree → Location → Path → Except Refusal α} {p : Path} {a : α}
    (hask : ask t h.cwd p = .ok a) : Finds h t (askTree ask p) a :=
  finds_tree.bind (finds_here.bind (finds_ofExcept hask))

theorem Finds.mapM {f : α → Run σ β} {g : α → β} {as : List α}
    (hf : ∀ a ∈ as, Finds h t (f a) (g a)) : Finds h t (as.mapM f) (as.map g) := by
  induction as with
  | nil => exact finds_pure _
  | cons a as ih =>
    rw [List.mapM_cons]
    exact (hf a (by simp)).bind ((ih fun a ha => hf a (by simp [ha])).bind (finds_pure _))

theorem Finds.foldlM {f : β → α → Run σ β} {g : β → α → β} {as : List α}
    (hf : ∀ b, ∀ a ∈ as, Finds h t (f b a) (g b a)) (b : β) :
    Finds h t (as.foldlM f b) (as.foldl g b) := by
  induction as generalizing b with
  | nil => exact finds_pure _
  | cons a as ih =>
    rw [List.foldlM_cons]
    exact (hf b a (by simp)).bind (ih (fun b a ha => hf b a (by simp [ha])) _)

theorem Finds.filterM {f : α → Run σ Bool} {g : α → Bool} {as : List α}
    (hf : ∀ a ∈ as, Finds h t (f a) (g a)) : Finds h t (as.filterM f) (as.filter g) := by
  suffices ∀ acc, Finds h t (List.filterAuxM f as acc) ((as.filter g).reverse ++ acc) by
    rw [List.filterM]
    have hends : Finds h t (pure ((as.filter g).reverse ++ []).reverse) (as.filter g) := by
      simpa using finds_pure (as.filter g)
    exact (this []).bind hends
  induction as with
  | nil => exact fun acc => finds_pure acc
  | cons a as ih =>
    intro acc
    rw [List.filterAuxM]
    have hrest := ih (fun a ha => hf a (by simp [ha])) (if g a then a :: acc else acc)
    refine (hf a (by simp)).bind ?_
    cases hga : g a with
    | true => simpa [hga] using hrest
    | false => simpa [hga] using hrest

theorem Finds.anyM {f : α → Run σ Bool} {g : α → Bool} {as : List α}
    (hf : ∀ a ∈ as, Finds h t (f a) (g a)) : Finds h t (as.anyM f) (as.any g) := by
  induction as with
  | nil => exact finds_pure _
  | cons a as ih =>
    rw [List.anyM, List.any_cons]
    refine (hf a (by simp)).bind ?_
    cases g a with
    | true => exact finds_pure true
    | false => exact ih fun a ha => hf a (by simp [ha])

end Run

end LintRunner
