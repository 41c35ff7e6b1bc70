import LintRunner.Proofs.Run.Idle

/-! How a run can fail, from how its parts can. `Fails h E act`: wherever `act` is begun, if it ends in
a failure, `E` holds of that. -/

namespace LintRunner.Run

variable {σ α β : Type} {h : Host σ} {E : Failure → Prop}

def Fails (h : Host σ) (E : Failure → Prop) (act : Run σ α) : Prop :=
  ∀ w e, (act.go h w).1 = .error e → E e

theorem fails_of_ok {act : Run σ α} (hact : ∀ w, ∃ a w', act.go h w = (.ok a, w')) : Fails h E act := by
  intro w e he
  obtain ⟨a, w', hgo⟩ := hact w
  rw [hgo] at he
  cases he

theorem Yields.fails {A : α → Prop} {act : Run σ α} (hact : Yields h A act) : Fails h E act :=
  fails_of_ok fun w =>
    let ⟨a, w', hgo, _, _⟩ := hact w
    ⟨a, w', hgo⟩

theorem fails_pure (a : α) : Fails h E (pure a) := fails_of_ok fun w => ⟨a, w, rfl⟩

theorem fails_host : Fails h E host := fails_of_ok fun w => ⟨h, w, rfl⟩

theorem fails_world : Fails h E world := fails_of_ok fun w => ⟨w, w, rfl⟩

theorem fails_tree : Fails h E tree := fails_of_ok fun w => ⟨w.tree, w, rfl⟩

theorem fails_here : Fails h E here := fails_of_ok fun w => ⟨h.cwd, w, rfl⟩

theorem fails_cwd : Fails h E cwd := fails_of_ok fun w => ⟨⟨.root, h.cwd⟩, w, rfl⟩

theorem fails_change (f : World σ → World σ) : Fails h E (change f) :=
  fails_of_ok fun w => ⟨(), f w, rfl⟩

theorem fails_fail {e : Failure} (he : E e) : Fails h E (fail e : Run σ α) := by
  rintro w e' ⟨⟩
  exact he

theorem fails_ofExcept {ε : Type} {toFailure : ε → Failure} {x : Except ε α}
    (hx : ∀ e, x = .error e → E (toFailure e)) : Fails h E (ofExcept toFailure x) := by
  cases x with
  | error e => exact fails_fail (hx e rfl)
  | ok a => exact fails_pure a

theorem Fails.bind {x : Run σ α} {f : α → Run σ β} (hx : Fails h E x) (hf : ∀ a, Fails h E (f a)) :
    Fails h E (x >>= f) := by
  intro w e he
  rcases go_bind_cases x f h w with ⟨e', w', hxw, hr⟩ | ⟨a, w', hxw, hr⟩
  · rw [hr] at he
    cases he
    exact hx w e (by rw [hxw])
  · rw [hr] at he
    exact hf a w' e he

/-- What follows an attempt knows in which ways it can have failed. -/
theorem Fails.attempt_bind {F : Failure → Prop} {act : Run σ α} {f : Except Failure α → Run σ β}
    (hact : Fails h E act) (hf : ∀ r, (∀ e, r = .error e → E e) → Fails h F (f r)) :
    Fails h F (attempt act >>= f) := by
  intro w e he
  rw [go_bind_ok (go_attempt act h w)] at he
  exact hf _ (fun e hr => hact w e hr) _ e he

theorem Fails.ite {c : Prop} [Decidable c] {x y : Run σ α} (hx : Fails h E x) (hy : Fails h E y) :
    Fails h E (if c then x else y) := by
  split
  · exact hx
  · exact hy

theorem fails_askTree {ask : FileTree → Location → Path → Except Refusal α} {p : Path}
    (hE : ∀ r, E (.ofRefusal p r)) : Fails h E (askTree ask p) :=
  fails_tree.bind fun _ => fails_here.bind fun _ => fails_ofExcept fun r _ => hE r

theorem fails_resolve {p : Path} (hE : ∀ c, E (.crash c)) : Fails h E (resolve p) := by
  refine fails_tree.bind fun t => fails_here.bind fun l => ?_
  split
  · exact fails_pure _
  · exact fails_fail (hE _)
  · exact fails_fail (hE _)

theorem Fails.mapM {f : α → Run σ β} (hf : ∀ a, Fails h E (f a)) (as : List α) :
    Fails h E (as.mapM f) := by
  induction as with
  | nil => exact fails_pure _
  | cons a as ih =>
    rw [List.mapM_cons]
    exact (hf a).bind fun _ => ih.bind fun _ => fails_pure _

theorem Fails.filterM {f : α → Run σ Bool} (hf : ∀ a, Fails h E (f a)) (as : List α) :
    Fails h E (as.filterM f) := by
  suffices ∀ acc, Fails h E (List.filterAuxM f as acc) from
    (this []).bind fun _ => fails_pure _
  induction as with
  | nil => exact fun acc => fails_pure acc
  | cons a as ih =>
    intro acc
    rw [List.filterAuxM]
    exact (hf a).bind fun b => ih _

theorem Fails.anyM {f : α → Run σ Bool} (hf : ∀ a, Fails h E (f a)) (as : List α) :
    Fails h E (as.anyM f) := by
  induction as with
  | nil => exact fails_pure _
  | cons a as ih =>
    rw [List.anyM]
    refine (hf a).bind fun b => ?_
    cases b
    · exact ih
    · exact fails_pure _

end LintRunner.Run
