import LintRunner.Proofs.Run.Idle

/-! Runs that leave the tree as it is. `Reads h t Q act`: wherever the tree is `t`, it is so afterwards
as well, and if `act` ends with a value, `Q` holds of it. Unlike what `Gives` says, `Q` may be about
the tree. -/

namespace LintRunner.Run

open World

variable {σ α β : Type} {h : Host σ} {t : FileTree} {w : World σ} {P : α → Prop} {Q : β → Prop}

structure ReadsAt (h : Host σ) (t : FileTree) (Q : α → Prop) (act : Run σ α) (w : World σ) : Prop where
  tree : (act.go h w).2.tree = t
  value : ∀ a, (act.go h w).1 = .ok a → Q a

def Reads (h : Host σ) (t : FileTree) (Q : α → Prop) (act : Run σ α) : Prop :=
  ∀ w, w.tree = t → ReadsAt h t Q act w

theorem Reads.mono {Q' : α → Prop} {act : Run σ α} (hact : Reads h t P act)
    (hPQ : ∀ a, P a → Q' a) : Reads h t Q' act :=
  fun w hw => ⟨(hact w hw).tree, fun a ha => hPQ a ((hact w hw).value a ha)⟩

theorem Gives.reads {act : Run σ α} (hact : Gives h P act) (hidle : Moves h Idle act) :
    Reads h t P act := fun w hw => ⟨(hidle w).tree.trans hw, fun a ha => hact w a ha⟩

theorem reads_true {act : Run σ α} (hidle : Moves h Idle act) : Reads h t (fun _ => True) act :=
  (gives_true act).reads hidle

theorem reads_pure {a : α} (ha : P a) : Reads h t P (pure a) := (gives_pure ha).reads (moves_pure a)

theorem reads_fail (e : Failure) : Reads h t P (fail e) := (gives_fail e).reads (moves_fail e)

theorem reads_tree : Reads h t (t = ·) tree := by
  rintro w rfl
  exact ⟨rfl, by rintro _ ⟨⟩; rfl⟩

theorem reads_here : Reads h t (· = h.cwd) here := by
  intro w hw
  exact ⟨hw, by rintro _ ⟨⟩; rfl⟩

theorem reads_askTree (ask : FileTree → Location → Path → Except Refusal α) (p : Path) :
    Reads h t (fun a => ask t h.cwd p = .ok a) (askTree ask p) := by
  rintro w rfl
  refine ⟨(idle_askTree ask p w).tree, fun a ha => ?_⟩
  rw [go_askTree] at ha
  exact of_mapError_ok ha

theorem reads_resolve (p : Path) : Reads h t (fun q => t.resolve h.cwd p = .ok q) (resolve p) := by
  rintro w rfl
  refine ⟨(idle_resolve p w).tree, fun q hq => ?_⟩
  rw [go_resolve] at hq
  exact of_mapError_ok hq

theorem reads_ofExcept {ε : Type} {toFailure : ε → Failure} {x : Except ε α}
    (hx : ∀ a, x = .ok a → P a) : Reads h t P (ofExcept toFailure x) :=
  (gives_ofExcept hx).reads (moves_ofExcept _ _)

theorem Reads.bind {x : Run σ α} {f : α → Run σ β} (hx : Reads h t P x)
    (hf : ∀ a, P a → Reads h t Q (f a)) : Reads h t Q (x >>= f) := by
  intro w hw
  obtain ⟨htree, hvalue⟩ := hx w hw
  rcases go_bind_cases x f h w with ⟨e, w', hxw, hr⟩ | ⟨a, w', hxw, hr⟩
  · rw [hxw] at htree
    refine ⟨by rw [hr]; exact htree, fun b hb => ?_⟩
    rw [hr] at hb
    cases hb
  · rw [hxw] at htree hvalue
    have hrest := hf a (hvalue a rfl) w' htree
    exact ⟨by rw [hr]; exact hrest.tree, fun b hb => hrest.value b (by rw [← hr, hb])⟩

/-- Where the first part only looks around. -/
theorem Reads.after {x : Run σ α} (hx : Moves h Idle x) {f : α → Run σ β}
    (hf : ∀ a, Reads h t Q (f a)) : Reads h t Q (x >>= f) := (reads_true hx).bind fun a _ => hf a

theorem Reads.ite {c : Prop} [Decidable c] {x y : Run σ α} (hx : c → Reads h t P x)
    (hy : ¬ c → Reads h t P y) : Reads h t P (if c then x else y) := by
  split
  · next hc => exact hx hc
  · next hc => exact hy hc

theorem Reads.mapM {f : α → Run σ β} {as : List α} (hf : ∀ a ∈ as, Reads h t Q (f a)) :
    Reads h t (fun bs => ∀ b ∈ bs, Q b) (as.mapM f) := by
  induction as with
  | nil => exact reads_pure (by simp)
  | cons a as ih =>
    rw [List.mapM_cons]
    refine (hf a (by simp)).bind fun b hb => ?_
    refine (ih fun a ha => hf a (by simp [ha])).bind fun bs hbs => reads_pure ?_
    simpa using ⟨hb, hbs⟩

theorem Reads.foldlM {f : β → α → Run σ β} {as : List α}
    (hf : ∀ b, ∀ a ∈ as, Q b → Reads h t Q (f b a)) {b : β} (hb : Q b) :
    Reads h t Q (as.foldlM f b) := by
  induction as generalizing b with
  | nil => exact reads_pure hb
  | cons a as ih =>
    rw [List.foldlM_cons]
    refine (hf b a (by simp) hb).bind fun b hb => ?_
    exact ih (fun b a ha => hf b a (by simp [ha])) hb

/-- What is kept was there, and whatever keeps it says so. -/
theorem Reads.filterM {f : α → Run σ Bool} {R : α → Prop} {as : List α}
    (hf : ∀ a ∈ as, Reads h t (fun b => b = true → R a) (f a)) :
    Reads h t (fun kept => ∀ a ∈ kept, a ∈ as ∧ R a) (as.filterM f) := by
  suffices ∀ acc, Reads h t (fun kept => ∀ a ∈ kept, a ∈ acc ∨ a ∈ as ∧ R a)
      (List.filterAuxM f as acc) by
    rw [List.filterM]
    refine (this []).bind fun kept hkept => reads_pure fun a ha => ?_
    simpa using hkept a (List.mem_reverse.1 ha)
  induction as with
  | nil => exact fun acc => reads_pure fun a ha => .inl ha
  | cons a as ih =>
    intro acc
    rw [List.filterAuxM]
    refine (hf a (by simp)).bind fun b hb => ?_
    refine (ih (fun a ha => hf a (by simp [ha])) _).mono fun kept hkept x hx => ?_
    rcases hkept x hx with hacc | ⟨hmem, hx⟩
    · cases b with
      | true =>
        rcases List.mem_cons.1 hacc with rfl | hacc
        · exact .inr ⟨by simp, hb rfl⟩
        · exact .inl hacc
      | false => exact .inl hacc
    · exact .inr ⟨by simp [hmem], hx⟩

theorem Reads.flatten {f : α → Run σ (List β)} {R : α → β → Prop} {as : List α}
    (hf : ∀ a ∈ as, Reads h t (fun bs => ∀ b ∈ bs, R a b) (f a)) :
    Reads h t (fun bs => ∀ b ∈ bs, ∃ a ∈ as, R a b) (do return (← as.mapM f).flatten) := by
  have hparts : Reads h t (fun parts => ∀ bs ∈ parts, ∀ b ∈ bs, ∃ a ∈ as, R a b) (as.mapM f) :=
    Reads.mapM fun a ha => (hf a ha).mono fun bs hbs b hb => ⟨a, ha, hbs b hb⟩
  refine hparts.bind fun parts hparts => reads_pure fun b hb => ?_
  obtain ⟨bs, hbs, hb⟩ := List.mem_flatten.1 hb
  exact hparts bs hbs b hb

end LintRunner.Run
