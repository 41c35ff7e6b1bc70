import LintRunner.Proofs.Run.Finds

/-! Runs in two trees. `Matches h t t' R x y`: wherever `x` is begun in `t` and `y` in `t'`, they end in
the same failure, or with values that `R` relates, and neither touches its tree or prints a line. -/

namespace LintRunner

variable {σ α β α' β' : Type} {h : Host σ} {t t' : FileTree} {w w' w'' : World σ}

def Event.print? : Event → Option String
  | .printed text => some text
  | _ => none

namespace World

/-- The lines that have been printed, in order. -/
def printed (w : World σ) : List String := w.events.filterMap Event.print?

structure Silent (w w' : World σ) : Prop where
  tree : w'.tree = w.tree
  printed : w'.printed = w.printed

theorem Silent.refl (w : World σ) : Silent w w := ⟨rfl, rfl⟩

theorem Silent.trans (h₁ : Silent w w') (h₂ : Silent w' w'') : Silent w w'' :=
  ⟨h₂.tree.trans h₁.tree, h₂.printed.trans h₁.printed⟩

instance : IsPreorder (World σ) Silent where
  refl := Silent.refl
  trans _ _ _ := Silent.trans

theorem printed_record (w : World σ) (e : Event) :
    (w.record e).printed = w.printed ++ (Event.print? e).toList := by
  rw [printed, printed, events_record, List.filterMap_append]
  cases h : e.print? <;> simp [List.filterMap, h]

theorem silent_record {e : Event} (he : e.print? = none) (w : World σ) : Silent w (w.record e) :=
  ⟨rfl, by rw [printed_record, he]; simp⟩

end World

open World

namespace Run

inductive Ends (R : α → β → Prop) : Except Failure α → Except Failure β → Prop where
  | value {a : α} {b : β} (hab : R a b) : Ends R (.ok a) (.ok b)
  | failure (e : Failure) : Ends R (.error e) (.error e)

def Matches (h : Host σ) (t t' : FileTree) (R : α → β → Prop) (x : Run σ α) (y : Run σ β) : Prop :=
  ∀ w w', w.tree = t → w'.tree = t' →
    Ends R (x.go h w).1 (y.go h w').1 ∧ Silent w (x.go h w).2 ∧ Silent w' (y.go h w').2

/-- The same value, and one as `P` says. -/
def Common (P : α → Prop) (a b : α) : Prop := a = b ∧ P a

/-- The same run in both trees comes to the same. -/
abbrev Repeats (h : Host σ) (t t' : FileTree) (P : α → Prop) (x : Run σ α) : Prop :=
  Matches h t t' (Common P) x x

variable {R : α → β → Prop} {S : α' → β' → Prop} {P : α → Prop}

theorem Ends.mono {R' : α → β → Prop} {r : Except Failure α} {r' : Except Failure β}
    (hr : Ends R r r') (hR : ∀ a b, R a b → R' a b) : Ends R' r r' := by
  cases hr with
  | value hab => exact .value (hR _ _ hab)
  | failure e => exact .failure e

theorem Ends.eq_of_common {r r' : Except Failure α} (hr : Ends (Common P) r r') : r = r' := by
  cases hr with
  | value hab => rw [hab.1]
  | failure => rfl

theorem Matches.mono {R' : α → β → Prop} {x : Run σ α} {y : Run σ β} (hx : Matches h t t' R x y)
    (hR : ∀ a b, R a b → R' a b) : Matches h t t' R' x y := by
  intro w w' hw hw'
  obtain ⟨hends, hsilent⟩ := hx w w' hw hw'
  exact ⟨hends.mono hR, hsilent⟩

theorem matches_pure {a : α} {b : β} (hab : R a b) : Matches h t t' R (pure a) (pure b) :=
  fun w w' _ _ => ⟨.value hab, Silent.refl w, Silent.refl w'⟩

theorem matches_fail (e : Failure) : Matches h t t' R (fail e : Run σ α) (fail e : Run σ β) :=
  fun w w' _ _ => ⟨.failure e, Silent.refl w, Silent.refl w'⟩

theorem Matches.bind {x : Run σ α} {y : Run σ β} {f : α → Run σ α'} {g : β → Run σ β'}
    (hx : Matches h t t' R x y) (hf : ∀ a b, R a b → Matches h t t' S (f a) (g b)) :
    Matches h t t' S (x >>= f) (y >>= g) := by
  intro w w' hw hw'
  obtain ⟨hends, hsilent, hsilent'⟩ := hx w w' hw hw'
  rw [go_bind, go_bind]
  revert hends hsilent hsilent'
  rcases x.go h w with ⟨r, w₁⟩
  rcases y.go h w' with ⟨r', w₁'⟩
  intro hends hsilent hsilent'
  cases hends with
  | value hab =>
    obtain ⟨hends, hlater, hlater'⟩ := hf _ _ hab w₁ w₁' (hsilent.tree.trans hw) (hsilent'.tree.trans hw')
    exact ⟨hends, hsilent.trans hlater, hsilent'.trans hlater'⟩
  | failure e => exact ⟨.failure e, hsilent, hsilent'⟩

theorem Matches.ite {c : Prop} [Decidable c] {x₁ x₂ : Run σ α} {y₁ y₂ : Run σ β}
    (h₁ : c → Matches h t t' R x₁ y₁) (h₂ : ¬ c → Matches h t t' R x₂ y₂) :
    Matches h t t' R (if c then x₁ else x₂) (if c then y₁ else y₂) := by
  split
  · next hc => exact h₁ hc
  · next hc => exact h₂ hc

theorem silent_log (level : Level) (message : String) : Moves h Silent (log level message) := by
  intro w
  change Silent w (if w.verbosity.shows level then w.record (.logged level message) else w)
  split
  · exact silent_record rfl w
  · exact Silent.refl w

theorem go_log (level : Level) (message : String) (h : Host σ) (w : World σ) :
    ∃ w', (log level message).go h w = (.ok (), w') ∧ Silent w w' ∧ w'.mind = w.mind :=
  ⟨_, rfl, silent_log (h := h) level message w, (still_log (h := h) level message w).mind⟩

theorem matches_log (level : Level) (message : String) :
    Matches h t t' (fun _ _ => True) (log level message) (log level message) :=
  fun w w' _ _ => ⟨.value trivial, silent_log level message w, silent_log level message w'⟩

theorem matches_debug (message : String) :
    Matches h t t' (fun _ _ => True) (debug message) (debug message) := matches_log _ _

theorem matches_tree : Matches h t t' (fun a b => a = t ∧ b = t') tree tree := by
  rintro w w' rfl rfl
  exact ⟨.value ⟨rfl, rfl⟩, Silent.refl w, Silent.refl w'⟩

theorem matches_here : Matches h t t' (fun a b => a = h.cwd ∧ b = h.cwd) here here :=
  fun w w' _ _ => ⟨.value ⟨rfl, rfl⟩, Silent.refl w, Silent.refl w'⟩

/-- A question is answered alike wherever the trees give the same answer. -/
theorem repeats_askTree {ask : FileTree → Location → Path → Except Refusal α} {p : Path}
    (hask : ask t h.cwd p = ask t' h.cwd p) :
    Repeats h t t' (fun a => ask t h.cwd p = .ok a) (askTree ask p) := by
  rintro w w' rfl rfl
  rw [go_askTree, go_askTree, ← hask]
  refine ⟨?_, Silent.refl w, Silent.refl w'⟩
  cases ask w.tree h.cwd p with
  | ok a => exact .value ⟨rfl, rfl⟩
  | error r => exact .failure _

/-- Where each finds its own value. -/
theorem Finds.matches {x : Run σ α} {y : Run σ β} {a : α} {b : β} (hx : Finds h t x a)
    (hy : Finds h t' y b) (hsilent : Moves h Silent x) (hsilent' : Moves h Silent y) :
    Matches h t t' (fun u v => u = a ∧ v = b) x y := by
  intro w w' hw hw'
  obtain ⟨w₁, hgo, -⟩ := hx w hw
  obtain ⟨w₁', hgo', -⟩ := hy w' hw'
  refine ⟨?_, hsilent w, hsilent' w'⟩
  rw [hgo, hgo']
  exact .value ⟨rfl, rfl⟩

theorem Repeats.mapM {f : α → Run σ α'} {K : α → α' → Prop} {as : List α}
    (hf : ∀ a ∈ as, Repeats h t t' (K a) (f a)) :
    Repeats h t t' (fun bs => ∀ b ∈ bs, ∃ a ∈ as, K a b) (as.mapM f) := by
  induction as with
  | nil => exact matches_pure ⟨rfl, by simp⟩
  | cons a as ih =>
    rw [List.mapM_cons]
    refine (hf a (by simp)).bind ?_
    rintro b _ ⟨rfl, hb⟩
    refine (ih fun a ha => hf a (by simp [ha])).bind ?_
    rintro bs _ ⟨rfl, hbs⟩
    refine matches_pure ⟨rfl, fun c hc => ?_⟩
    rcases List.mem_cons.1 hc with rfl | hc
    · exact ⟨a, by simp, hb⟩
    · obtain ⟨a', ha', hkey⟩ := hbs c hc
      exact ⟨a', by simp [ha'], hkey⟩

/-- Each is asked about, and some of them are kept. -/
theorem Repeats.filterM {f : α → Run σ Bool} {K : α → Bool → Prop} {as : List α}
    (hf : ∀ a ∈ as, Repeats h t t' (K a) (f a)) :
    Repeats h t t' (fun kept => (∀ a ∈ as, ∃ b, K a b) ∧ ∀ a ∈ kept, a ∈ as ∧ K a true)
      (as.filterM f) := by
  suffices ∀ acc, Repeats h t t'
      (fun kept => (∀ a ∈ as, ∃ b, K a b) ∧ ∀ a ∈ kept, a ∈ acc ∨ (a ∈ as ∧ K a true))
      (List.filterAuxM f as acc) by
    refine (this []).bind ?_
    rintro kept _ ⟨rfl, hall, hkept⟩
    exact matches_pure ⟨rfl, hall, fun a ha => by simpa using hkept a (List.mem_reverse.1 ha)⟩
  induction as with
  | nil => exact fun acc => matches_pure ⟨rfl, by simp, fun a ha => .inl ha⟩
  | cons a as ih =>
    intro acc
    rw [List.filterAuxM]
    refine (hf a (by simp)).bind ?_
    rintro b _ ⟨rfl, hb⟩
    refine (ih (fun a ha => hf a (by simp [ha])) _).mono ?_
    rintro kept _ ⟨rfl, hall, hkept⟩
    refine ⟨rfl, ?_, fun c hc => ?_⟩
    · intro c hc
      rcases List.mem_cons.1 hc with rfl | hc
      · exact ⟨b, hb⟩
      · exact hall c hc
    · rcases hkept c hc with hacc | ⟨hmem, hkey⟩
      · cases b with
        | false => exact .inl hacc
        | true =>
          rcases List.mem_cons.1 hacc with rfl | hacc
          · exact .inr ⟨by simp, hb⟩
          · exact .inl hacc
      · exact .inr ⟨by simp [hmem], hkey⟩

theorem Repeats.anyM {f : α → Run σ Bool} {as : List α}
    (hf : ∀ a ∈ as, Repeats h t t' (fun _ => True) (f a)) :
    Repeats h t t' (fun _ => True) (as.anyM f) := by
  induction as with
  | nil => exact matches_pure ⟨rfl, trivial⟩
  | cons a as ih =>
    rw [List.anyM]
    refine (hf a (by simp)).bind ?_
    rintro b _ ⟨rfl, -⟩
    cases b with
    | true => exact matches_pure ⟨rfl, trivial⟩
    | false => exact ih fun a ha => hf a (by simp [ha])

end Run

end LintRunner
