import LintRunner.World
import Mathlib.Order.Defs.Unbundled

/-! What a run does, from what its parts do. `Moves h R act`: however `act` ends, `R` leads from the
world it was started in to the world it leaves. `Gives h Q act`: if `act` ends with a value, `Q`
holds of it. -/

namespace LintRunner.Run

variable {σ α β : Type} {h : Host σ} {w w' : World σ}

section Outcomes

variable {ε ε' : Type} {x : Except ε α} {toFailure : ε → ε'}

@[simp] theorem mapError_ok (a : α) : (Except.ok a).mapError toFailure = .ok a := rfl

@[simp] theorem mapError_error (e : ε) :
    (Except.error e : Except ε α).mapError toFailure = .error (toFailure e) := rfl

theorem of_mapError_ok {a : α} (hx : x.mapError toFailure = .ok a) : x = .ok a := by
  cases x with
  | error e => cases hx
  | ok b =>
    cases hx
    rfl

/-- Two parts end well only if each does. -/
theorem of_bind_ok {f : α → Except ε β} {b : β} (hb : (x >>= f) = .ok b) :
    ∃ a, x = .ok a ∧ f a = .ok b := by
  cases x with
  | error e => cases hb
  | ok a => exact ⟨a, rfl, hb⟩

/-- One of two parts is to blame where both together fail. -/
theorem of_bind_error {f : α → Except ε β} {e : ε} (he : (x >>= f) = .error e) :
    x = .error e ∨ ∃ a, x = .ok a ∧ f a = .error e := by
  cases x with
  | error e' =>
    cases he
    exact .inl rfl
  | ok a => exact .inr ⟨a, rfl, he⟩

/-- One member is to blame where a list of them fails, and none before it. -/
theorem of_mapM_error {g : α → Except ε β} {as : List α} {e : ε} (he : as.mapM g = .error e) :
    ∃ front b back, as = front ++ b :: back ∧ (∀ a ∈ front, ∃ c, g a = .ok c) ∧ g b = .error e := by
  induction as with
  | nil => cases he
  | cons b as ih =>
    rw [List.mapM_cons] at he
    cases hb : g b with
    | error e' =>
      rw [hb] at he
      cases he
      exact ⟨[], b, as, rfl, by simp, hb⟩
    | ok c =>
      rw [hb] at he
      cases hrest : as.mapM g with
      | error e' =>
        rw [hrest] at he
        cases he
        obtain ⟨front, b', back, rfl, hfront, hg⟩ := ih hrest
        exact ⟨b :: front, b', back, rfl, List.forall_mem_cons.2 ⟨⟨c, hb⟩, hfront⟩, hg⟩
      | ok cs =>
        rw [hrest] at he
        cases he

/-- What holds of a value that there is. -/
theorem of_any_toOption {P : α → Bool} (hx : x.toOption.any P = true) : ∃ a, x = .ok a ∧ P a = true := by
  cases x with
  | error e => cases hx
  | ok a => exact ⟨a, rfl, hx⟩

end Outcomes

@[simp] theorem go_pure (a : α) (h : Host σ) (w : World σ) :
    (pure a : Run σ α).go h w = (.ok a, w) := rfl

theorem go_bind (x : Run σ α) (f : α → Run σ β) (h : Host σ) (w : World σ) :
    (x >>= f).go h w = match x.go h w with
      | (.ok a, w') => (f a).go h w'
      | (.error e, w') => (.error e, w') := by
  simp only [go, bind, ReaderT.bind, ExceptT.bind, ExceptT.mk, StateT.bind, ExceptT.bindCont]
  rcases x h w with ⟨_ | _, _⟩ <;> rfl

theorem go_bind_ok {x : Run σ α} {a : α} (hx : x.go h w = (.ok a, w')) (f : α → Run σ β) :
    (x >>= f).go h w = (f a).go h w' := by rw [go_bind, hx]

theorem go_bind_error {x : Run σ α} {e : Failure} (hx : x.go h w = (.error e, w'))
    (f : α → Run σ β) : (x >>= f).go h w = (.error e, w') := by rw [go_bind, hx]

/-- The first part fails and with it the whole, or the second part goes on from where it ended. -/
theorem go_bind_cases (x : Run σ α) (f : α → Run σ β) (h : Host σ) (w : World σ) :
    (∃ e w', x.go h w = (.error e, w') ∧ (x >>= f).go h w = (.error e, w')) ∨
      ∃ a w', x.go h w = (.ok a, w') ∧ (x >>= f).go h w = (f a).go h w' := by
  rcases hx : x.go h w with ⟨e | a, w'⟩
  · exact .inl ⟨e, w', rfl, go_bind_error hx f⟩
  · exact .inr ⟨a, w', rfl, go_bind_ok hx f⟩

/-- A whole that ends well came through its first part. -/
theorem of_go_bind_ok {x : Run σ α} {f : α → Run σ β} {b : β}
    (hgo : (x >>= f).go h w = (.ok b, w')) :
    ∃ a w₁, x.go h w = (.ok a, w₁) ∧ (f a).go h w₁ = (.ok b, w') := by
  rcases go_bind_cases x f h w with ⟨e, w₁, -, hr⟩ | ⟨a, w₁, hx, hr⟩
  · rw [hr] at hgo
    cases hgo
  · rw [hr] at hgo
    exact ⟨a, w₁, hx, hgo⟩

/-- It ends well, and so that this can be said of its value and the world that it leaves. -/
def comesTo (act : Run σ α) (h : Host σ) (w : World σ) (check : α → World σ → Bool) : Bool :=
  match act.go h w with
  | (.ok a, w') => check a w'
  | (.error _, _) => false

theorem of_comesTo {act : Run σ α} {check : α → World σ → Bool} (hcomes : act.comesTo h w check = true) :
    ∃ a w', act.go h w = (.ok a, w') ∧ check a w' = true := by
  unfold comesTo at hcomes
  rcases hgo : act.go h w with ⟨e | a, w'⟩
  · rw [hgo] at hcomes
    cases hcomes
  · rw [hgo] at hcomes
    exact ⟨a, w', rfl, hcomes⟩

/-- What the first part establishes carries over to the whole, also where the second part is not
reached. -/
theorem bind_leads {x : Run σ α} {f : α → Run σ β} {I J : World σ → Prop} (hx : I (x.go h w).2)
    (hstop : ∀ w, I w → J w) (hf : ∀ a w, I w → J ((f a).go h w).2) : J ((x >>= f).go h w).2 := by
  rcases go_bind_cases x f h w with ⟨e, w', hxw, hr⟩ | ⟨a, w', hxw, hr⟩
  · rw [hr]
    rw [hxw] at hx
    exact hstop w' hx
  · rw [hr]
    rw [hxw] at hx
    exact hf a w' hx

theorem go_map (f : α → β) (x : Run σ α) (h : Host σ) (w : World σ) :
    (f <$> x).go h w = ((x.go h w).1.map f, (x.go h w).2) := by
  rw [← bind_pure_comp, go_bind]
  rcases x.go h w with ⟨_ | _, _⟩ <;> rfl

@[simp] theorem go_host (h : Host σ) (w : World σ) : host.go h w = (.ok h, w) := rfl

@[simp] theorem go_world (h : Host σ) (w : World σ) : world.go h w = (.ok w, w) := rfl

@[simp] theorem go_tree (h : Host σ) (w : World σ) : tree.go h w = (.ok w.tree, w) := rfl

@[simp] theorem go_here (h : Host σ) (w : World σ) : here.go h w = (.ok h.cwd, w) := rfl

@[simp] theorem go_cwd (h : Host σ) (w : World σ) : cwd.go h w = (.ok ⟨.root, h.cwd⟩, w) := rfl

@[simp] theorem go_change (f : World σ → World σ) (h : Host σ) (w : World σ) :
    (change f).go h w = (.ok (), f w) := rfl

@[simp] theorem go_record (e : Event) (h : Host σ) (w : World σ) :
    (record e).go h w = (.ok (), w.record e) := rfl

@[simp] theorem go_fail (e : Failure) (h : Host σ) (w : World σ) :
    (fail e : Run σ α).go h w = (.error e, w) := rfl

@[simp] theorem go_attempt (act : Run σ α) (h : Host σ) (w : World σ) :
    (attempt act).go h w = (.ok (act.go h w).1, (act.go h w).2) := rfl

theorem go_ofExcept {ε : Type} (toFailure : ε → Failure) (x : Except ε α) (h : Host σ) (w : World σ) :
    (ofExcept toFailure x).go h w = (x.mapError toFailure, w) := by
  cases x <;> rfl

@[simp] theorem go_ofExcept_ok {ε : Type} (toFailure : ε → Failure) (a : α) (h : Host σ)
    (w : World σ) : (ofExcept toFailure (.ok a)).go h w = (.ok a, w) := rfl

@[simp] theorem go_ofExcept_error {ε : Type} (toFailure : ε → Failure) (e : ε) (h : Host σ)
    (w : World σ) : (ofExcept toFailure (.error e) : Run σ α).go h w = (.error (toFailure e), w) :=
  rfl

/-- What comes afterwards is run in any case; only its failure replaces the outcome. -/
theorem go_ensuring (act : Run σ α) (after : Run σ Unit) (h : Host σ) (w : World σ) :
    (ensuring act after).go h w =
      ((match (after.go h (act.go h w).2).1 with
        | .ok () => (act.go h w).1
        | .error e => .error e), (after.go h (act.go h w).2).2) := by
  simp only [go, ensuring]
  rcases act h w with ⟨r, w₁⟩
  dsimp only
  rcases after h w₁ with ⟨_ | _, _⟩ <;> rfl

def Moves (h : Host σ) (R : World σ → World σ → Prop) (act : Run σ α) : Prop :=
  ∀ w, R w (act.go h w).2

variable {R S : World σ → World σ → Prop}

theorem Moves.mono {act : Run σ α} (hact : Moves h R act) (hRS : ∀ w w', R w w' → S w w') :
    Moves h S act := fun w => hRS _ _ (hact w)

theorem Moves.attempt {act : Run σ α} (hact : Moves h R act) : Moves h R (attempt act) :=
  fun w => hact w

theorem Moves.map {x : Run σ α} (hx : Moves h R x) (f : α → β) : Moves h R (f <$> x) := by
  intro w
  rw [go_map]
  exact hx w

theorem Moves.ite {c : Prop} [Decidable c] {x y : Run σ α} (hx : Moves h R x) (hy : Moves h R y) :
    Moves h R (if c then x else y) := by
  split
  · exact hx
  · exact hy

section Preorder

variable [IsPreorder (World σ) R]

theorem moves_pure (a : α) : Moves h R (pure a) := fun w => refl_of R w

theorem moves_fail (e : Failure) : Moves h R (fail e : Run σ α) := fun w => refl_of R w

theorem moves_world : Moves h R world := fun w => refl_of R w

theorem moves_tree : Moves h R tree := fun w => refl_of R w

theorem moves_here : Moves h R here := fun w => refl_of R w

theorem moves_cwd : Moves h R cwd := fun w => refl_of R w

theorem moves_ofExcept {ε : Type} (toFailure : ε → Failure) (x : Except ε α) :
    Moves h R (ofExcept toFailure x) := by
  intro w
  rw [go_ofExcept]
  exact refl_of R w

theorem Moves.bind {x : Run σ α} {f : α → Run σ β} (hx : Moves h R x)
    (hf : ∀ a, Moves h R (f a)) : Moves h R (x >>= f) := by
  intro w
  have hw := hx w
  rcases go_bind_cases x f h w with ⟨e, w', hxw, hr⟩ | ⟨a, w', hxw, hr⟩
  · rw [hr]
    rwa [hxw] at hw
  · rw [hr]
    rw [hxw] at hw
    exact trans_of R hw (hf a w')

theorem Moves.mapM {f : α → Run σ β} (hf : ∀ a, Moves h R (f a)) (as : List α) :
    Moves h R (as.mapM f) := by
  induction as with
  | nil => exact moves_pure _
  | cons a as ih =>
    rw [List.mapM_cons]
    exact (hf a).bind fun _ => ih.bind fun _ => moves_pure _

theorem Moves.foldlM {f : β → α → Run σ β} (hf : ∀ b a, Moves h R (f b a)) (as : List α) (b : β) :
    Moves h R (as.foldlM f b) := by
  induction as generalizing b with
  | nil => exact moves_pure _
  | cons a as ih =>
    rw [List.foldlM_cons]
    exact (hf b a).bind fun b => ih b

theorem Moves.filterM {f : α → Run σ Bool} (hf : ∀ a, Moves h R (f a)) (as : List α) :
    Moves h R (as.filterM f) := by
  suffices ∀ acc, Moves h R (List.filterAuxM f as acc) from
    (this []).bind fun _ => moves_pure _
  induction as with
  | nil => exact fun acc => moves_pure acc
  | cons a as ih =>
    intro acc
    rw [List.filterAuxM]
    exact (hf a).bind fun b => ih _

theorem Moves.findM? {f : α → Run σ Bool} (hf : ∀ a, Moves h R (f a)) (as : List α) :
    Moves h R (as.findM? f) := by
  induction as with
  | nil => exact moves_pure _
  | cons a as ih =>
    rw [List.findM?]
    refine (hf a).bind fun b => ?_
    cases b
    · exact ih
    · exact moves_pure _

theorem Moves.anyM {f : α → Run σ Bool} (hf : ∀ a, Moves h R (f a)) (as : List α) :
    Moves h R (as.anyM f) := by
  induction as with
  | nil => exact moves_pure _
  | cons a as ih =>
    rw [List.anyM]
    refine (hf a).bind fun b => ?_
    cases b
    · exact ih
    · exact moves_pure _

end Preorder

def Gives (h : Host σ) (Q : α → Prop) (act : Run σ α) : Prop :=
  ∀ w a, (act.go h w).1 = .ok a → Q a

variable {P : α → Prop} {Q : β → Prop}

theorem gives_pure {a : α} (ha : P a) : Gives h P (pure a) := by
  rintro w b ⟨⟩
  exact ha

theorem gives_fail (e : Failure) : Gives h P (fail e) := by
  rintro w a ⟨⟩

theorem gives_true (act : Run σ α) : Gives h (fun _ => True) act := fun _ _ _ => trivial

theorem gives_ofExcept {ε : Type} {toFailure : ε → Failure} {x : Except ε α}
    (hx : ∀ a, x = .ok a → P a) : Gives h P (ofExcept toFailure x) := by
  intro w a ha
  cases x with
  | error e => cases ha
  | ok b =>
    cases ha
    exact hx a rfl

theorem Gives.bind {x : Run σ α} {f : α → Run σ β} (hx : Gives h P x)
    (hf : ∀ a, P a → Gives h Q (f a)) : Gives h Q (x >>= f) := by
  intro w b hb
  rcases go_bind_cases x f h w with ⟨e, w', -, hr⟩ | ⟨a, w', hxw, hr⟩
  · rw [hr] at hb
    cases hb
  · rw [hr] at hb
    exact hf a (hx w a (by rw [hxw])) w' b hb

/-- Where the first part may give anything. -/
theorem Gives.after (x : Run σ α) {f : α → Run σ β} (hf : ∀ a, Gives h Q (f a)) :
    Gives h Q (x >>= f) := (gives_true x).bind fun a _ => hf a

theorem Gives.ite {c : Prop} [Decidable c] {x y : Run σ α} (hx : Gives h P x) (hy : Gives h P y) :
    Gives h P (if c then x else y) := by
  split
  · exact hx
  · exact hy

theorem Gives.mapM {f : α → Run σ β} (hf : ∀ a, Gives h Q (f a)) (as : List α) :
    Gives h (fun bs => ∀ b ∈ bs, Q b) (as.mapM f) := by
  induction as with
  | nil => exact gives_pure (by simp)
  | cons a as ih =>
    rw [List.mapM_cons]
    refine (hf a).bind fun b hb => ih.bind fun bs hbs => gives_pure ?_
    simpa using ⟨hb, hbs⟩

theorem Gives.foldlM {f : β → α → Run σ β} (hf : ∀ b a, Q b → Gives h Q (f b a)) (as : List α)
    {b : β} (hb : Q b) : Gives h Q (as.foldlM f b) := by
  induction as generalizing b with
  | nil => exact gives_pure hb
  | cons a as ih =>
    rw [List.foldlM_cons]
    exact (hf b a hb).bind fun b hb => ih hb

end LintRunner.Run
