import LintRunner.Proofs.Selection.Sources

/-! One host, started in two directories. `Agrees h c d P x y`: from the same world, `x` started in `c`
and `y` started in `d` end alike and leave the same world, and if they end with a value, `P` holds of
it. Whatever asks for paths that start from the top agrees with itself. -/

namespace LintRunner

open World

variable {σ α β : Type} {h : Host σ} {c d : Location} {P : α → Prop} {Q : β → Prop}

namespace FileTree

variable {p : Path}

theorem status_of_isAbsolute (hp : p.isAbsolute = true) (t : FileTree) :
    t.status c p = t.status d p := by
  simp only [status, locate, originOf, hp, if_true]

theorem inquire_of_isAbsolute (hp : p.isAbsolute = true) (ask : Entry → Bool) (t : FileTree) :
    t.inquire ask c p = t.inquire ask d p := by
  rw [inquire, inquire, status_of_isAbsolute hp]

theorem bytesAt_of_isAbsolute (hp : p.isAbsolute = true) (t : FileTree) :
    t.bytesAt c p = t.bytesAt d p := by
  rw [bytesAt, bytesAt, status_of_isAbsolute hp]

theorem resolve_of_isAbsolute (hp : p.isAbsolute = true) (t : FileTree) :
    t.resolve c p = t.resolve d p := by
  have hstatus (ns : List String) :
      t.status c (Path.mk .root ns).normalize = t.status d (Path.mk .root ns).normalize :=
    status_of_isAbsolute rfl t
  simp only [resolve, originOf, hp, if_true, hstatus]

end FileTree

theorem Path.isAbsolute_child {p : Path} (hp : p.isAbsolute = true) (name : String) :
    (p.child name).isAbsolute = true := hp

theorem Path.isAbsolute_of_mem_parents {p q : Path} (hp : p.isAbsolute = true) (hq : q ∈ p.parents) :
    q.isAbsolute = true := by
  obtain ⟨names, -, rfl⟩ := mem_parents.1 hq
  exact hp

/-- The same host with the run started elsewhere. -/
def Host.startedIn (h : Host σ) (here : Location) : Host σ := { h with cwd := here }

namespace Run

/-- How two runs compare that are begun in one world. -/
structure AgreesAt (h : Host σ) (c d : Location) (P : α → Prop) (x y : Run σ α) (w : World σ) : Prop where
  same : x.go (h.startedIn c) w = y.go (h.startedIn d) w
  top : (x.go (h.startedIn c) w).2.TopResolved
  value : ∀ a, (x.go (h.startedIn c) w).1 = .ok a → P a

/-- The top of the repository, once it is held, has to be held as a place. -/
def Agrees (h : Host σ) (c d : Location) (P : α → Prop) (x y : Run σ α) : Prop :=
  ∀ w : World σ, w.TopResolved → AgreesAt h c d P x y w

theorem Agrees.mono {x y : Run σ α} {P' : α → Prop} (hx : Agrees h c d P x y)
    (hPP' : ∀ a, P a → P' a) : Agrees h c d P' x y :=
  fun w hw => ⟨(hx w hw).same, (hx w hw).top, fun a ha => hPP' a ((hx w hw).value a ha)⟩

theorem agrees_of_keepsTop {x y : Run σ α} (hkeeps : Moves (h.startedIn c) KeepsTop x)
    (hsame : ∀ w, x.go (h.startedIn c) w = y.go (h.startedIn d) w) :
    Agrees h c d (fun _ => True) x y := fun w hw => ⟨hsame w, hkeeps w hw, fun _ _ => trivial⟩

theorem agrees_of_idle {x y : Run σ α} (hidle : Moves (h.startedIn c) Idle x)
    (hsame : ∀ w, x.go (h.startedIn c) w = y.go (h.startedIn d) w) :
    Agrees h c d (fun _ => True) x y := agrees_of_keepsTop (keepsTop_of_idle hidle) hsame

theorem agrees_pure {a : α} (ha : P a) : Agrees h c d P (pure a) (pure a) :=
  fun _ hw => ⟨rfl, hw, by rintro _ ⟨⟩; exact ha⟩

theorem agrees_fail (e : Failure) : Agrees h c d P (fail e) (fail e) :=
  fun _ hw => ⟨rfl, hw, by rintro _ ⟨⟩⟩

theorem agrees_log (level : Level) (message : String) :
    Agrees h c d (fun _ => True) (log level message) (log level message) :=
  agrees_of_idle (idle_log _ _) fun _ => rfl

theorem agrees_record (e : Event) : Agrees h c d (fun _ => True) (record e) (record e) :=
  agrees_of_keepsTop (fun _ => keepsTop_of_root_eq rfl) fun _ => rfl

theorem agrees_debug (message : String) :
    Agrees h c d (fun _ => True) (debug message) (debug message) := agrees_log _ _

theorem agrees_now : Agrees h c d (fun _ => True) now now :=
  agrees_of_keepsTop (fun _ => keepsTop_of_root_eq rfl) fun _ => rfl

theorem agrees_tree : Agrees h c d (fun _ => True) tree tree := agrees_of_idle moves_tree fun _ => rfl

theorem agrees_ofExcept {ε : Type} {toFailure : ε → Failure} {x : Except ε α}
    (hx : ∀ a, x = .ok a → P a) : Agrees h c d P (ofExcept toFailure x) (ofExcept toFailure x) := by
  cases x with
  | error e => exact agrees_fail _
  | ok a => exact agrees_pure (hx a rfl)

theorem Agrees.bind {x y : Run σ α} {f g : α → Run σ β} (hx : Agrees h c d P x y)
    (hf : ∀ a, P a → Agrees h c d Q (f a) (g a)) : Agrees h c d Q (x >>= f) (y >>= g) := by
  intro w hw
  obtain ⟨hsame, htop, hvalue⟩ := hx w hw
  rcases hxw : x.go (h.startedIn c) w with ⟨e | a, w₁⟩
  · rw [hxw] at hsame htop
    have hfirst := go_bind_error hxw f
    have hsecond := go_bind_error hsame.symm g
    exact ⟨hfirst.trans hsecond.symm, by rw [hfirst]; exact htop, by rw [hfirst]; rintro b ⟨⟩⟩
  · rw [hxw] at hsame htop hvalue
    obtain ⟨hsame', htop', hvalue'⟩ := hf a (hvalue a rfl) w₁ htop
    have hfirst := go_bind_ok hxw f
    have hsecond := go_bind_ok hsame.symm g
    exact ⟨by rw [hfirst, hsecond, hsame'], by rw [hfirst]; exact htop', by rw [hfirst]; exact hvalue'⟩

theorem Agrees.ite {p : Prop} [Decidable p] {x₁ y₁ x₂ y₂ : Run σ α} (h₁ : p → Agrees h c d P x₁ y₁)
    (h₂ : ¬ p → Agrees h c d P x₂ y₂) :
    Agrees h c d P (if p then x₁ else x₂) (if p then y₁ else y₂) := by
  split
  · next hp => exact h₁ hp
  · next hp => exact h₂ hp

theorem Agrees.of_go_eq {x x' y y' : Run σ α} (hx : Agrees h c d P x y)
    (hx' : ∀ w, x'.go (h.startedIn c) w = x.go (h.startedIn c) w)
    (hy' : ∀ w, y'.go (h.startedIn d) w = y.go (h.startedIn d) w) : Agrees h c d P x' y' :=
  fun w hw => ⟨by rw [hx', hy', (hx w hw).same], hx' w ▸ (hx w hw).top, hx' w ▸ (hx w hw).value⟩

/-- Where the two are told apart. -/
theorem Agrees.here {f g : Location → Run σ α} (hf : Agrees h c d P (f c) (g d)) :
    Agrees h c d P (here >>= f) (here >>= g) :=
  hf.of_go_eq (fun w => go_bind_ok (go_here _ w) f) fun w => go_bind_ok (go_here _ w) g

theorem Agrees.cwd {f g : Path → Run σ α} (hf : Agrees h c d P (f ⟨.root, c⟩) (g ⟨.root, d⟩)) :
    Agrees h c d P (cwd >>= f) (cwd >>= g) :=
  hf.of_go_eq (fun w => go_bind_ok (go_cwd _ w) f) fun w => go_bind_ok (go_cwd _ w) g

theorem Agrees.host {f g : Host σ → Run σ α}
    (hf : Agrees h c d P (f (h.startedIn c)) (g (h.startedIn d))) :
    Agrees h c d P (host >>= f) (host >>= g) :=
  hf.of_go_eq (fun w => go_bind_ok (go_host _ w) f) fun w => go_bind_ok (go_host _ w) g

theorem Agrees.attempt {x y : Run σ α} (hx : Agrees h c d P x y) :
    Agrees h c d (fun r => ∀ a, r = .ok a → P a) (attempt x) (attempt y) := by
  intro w hw
  obtain ⟨hsame, htop, hvalue⟩ := hx w hw
  refine ⟨by rw [go_attempt, go_attempt, hsame], htop, ?_⟩
  rintro r ⟨⟩ a ha
  exact hvalue a ha

theorem Agrees.ensuring {x y : Run σ α} {x' y' : Run σ Unit} (hx : Agrees h c d P x y)
    (hx' : Agrees h c d (fun _ => True) x' y') :
    Agrees h c d P (ensuring x x') (ensuring y y') := by
  intro w hw
  obtain ⟨hsame, htop, hvalue⟩ := hx w hw
  obtain ⟨hsame', htop', -⟩ := hx' _ htop
  refine ⟨by rw [go_ensuring, go_ensuring, ← hsame, hsame'], by rw [go_ensuring]; exact htop', ?_⟩
  intro a ha
  rw [go_ensuring] at ha
  dsimp only at ha
  split at ha
  · exact hvalue a ha
  · cases ha

theorem agrees_askTree {ask : FileTree → Location → Path → Except Refusal α} {p : Path}
    (hask : ∀ t, ask t c p = ask t d p) :
    Agrees h c d (fun _ => True) (askTree ask p) (askTree ask p) := by
  refine agrees_tree.bind fun t _ => Agrees.here ?_
  rw [hask t]
  exact agrees_ofExcept fun _ _ => trivial

section Paths

variable {p : Path} (hp : p.isAbsolute = true)

include hp

theorem agrees_exists? : Agrees h c d (fun _ => True) (exists? p) (exists? p) :=
  agrees_askTree (FileTree.inquire_of_isAbsolute hp _)

theorem agrees_isFile? : Agrees h c d (fun _ => True) (isFile? p) (isFile? p) :=
  agrees_askTree (FileTree.inquire_of_isAbsolute hp _)

theorem agrees_isDirectory? : Agrees h c d (fun _ => True) (isDirectory? p) (isDirectory? p) :=
  agrees_askTree (FileTree.inquire_of_isAbsolute hp _)

theorem agrees_bytesAt : Agrees h c d (fun _ => True) (bytesAt p) (bytesAt p) :=
  agrees_askTree (FileTree.bytesAt_of_isAbsolute hp)

theorem agrees_resolve :
    Agrees h c d (fun q => q.anchor = .root ∧ ".." ∉ q.parts) (resolve p) (resolve p) := by
  intro w hw
  have hsame := FileTree.resolve_of_isAbsolute (c := c) (d := d) hp w.tree
  refine ⟨?_, ?_, fun q hq => ?_⟩
  · rw [go_resolve, go_resolve, Host.startedIn, Host.startedIn, hsame]
  · rw [go_resolve]
    exact hw
  · rw [go_resolve] at hq
    exact FileTree.of_resolve_ok (of_mapError_ok hq)

end Paths

theorem Agrees.mapM {f g : α → Run σ β} {as : List α} (hf : ∀ a ∈ as, Agrees h c d Q (f a) (g a)) :
    Agrees h c d (fun bs => ∀ b ∈ bs, Q b) (as.mapM f) (as.mapM g) := by
  induction as with
  | nil => exact agrees_pure (by simp)
  | cons a as ih =>
    rw [List.mapM_cons, List.mapM_cons]
    refine (hf a (by simp)).bind fun b hb => ?_
    refine (ih fun a ha => hf a (by simp [ha])).bind fun bs hbs => agrees_pure ?_
    simpa using ⟨hb, hbs⟩

theorem Agrees.forM {f g : α → Run σ Unit} (as : List α)
    (hf : ∀ a ∈ as, Agrees h c d (fun _ => True) (f a) (g a)) :
    Agrees h c d (fun _ => True) (as.forM f) (as.forM g) := by
  induction as with
  | nil => exact agrees_pure trivial
  | cons a as ih => exact (hf a (by simp)).bind fun _ _ => ih fun a ha => hf a (by simp [ha])

theorem Agrees.foldlM {f g : β → α → Run σ β} {as : List α}
    (hf : ∀ b, Q b → ∀ a ∈ as, Agrees h c d Q (f b a) (g b a)) {b : β} (hb : Q b) :
    Agrees h c d Q (as.foldlM f b) (as.foldlM g b) := by
  induction as generalizing b with
  | nil => exact agrees_pure hb
  | cons a as ih =>
    rw [List.foldlM_cons, List.foldlM_cons]
    exact (hf b hb a (by simp)).bind fun b hb => ih (fun b hb a ha => hf b hb a (by simp [ha])) hb

theorem Agrees.filterM {f g : α → Run σ Bool} {as : List α}
    (hf : ∀ a ∈ as, Agrees h c d (fun _ => True) (f a) (g a)) :
    Agrees h c d (fun bs => ∀ b ∈ bs, b ∈ as) (as.filterM f) (as.filterM g) := by
  suffices ∀ (bs acc : List α), (∀ b ∈ bs, b ∈ as) → (∀ b ∈ acc, b ∈ as) →
      Agrees h c d (fun bs => ∀ b ∈ bs, b ∈ as) (List.filterAuxM f bs acc) (List.filterAuxM g bs acc) from
    (this as [] (fun _ hb => hb) (by simp)).bind fun bs hbs => agrees_pure (by simpa using hbs)
  intro bs
  induction bs with
  | nil => exact fun acc _ hacc => agrees_pure hacc
  | cons a bs ih =>
    intro acc hbs hacc
    rw [List.filterAuxM, List.filterAuxM]
    have ha : a ∈ as := hbs a (by simp)
    refine (hf a ha).bind fun b _ => ih _ (fun b hb => hbs b (by simp [hb])) ?_
    cases b
    · exact hacc
    · simpa using ⟨ha, hacc⟩

theorem Agrees.anyM {f g : α → Run σ Bool} {as : List α}
    (hf : ∀ a ∈ as, Agrees h c d (fun _ => True) (f a) (g a)) :
    Agrees h c d (fun _ => True) (as.anyM f) (as.anyM g) := by
  induction as with
  | nil => exact agrees_pure trivial
  | cons a as ih =>
    rw [List.anyM, List.anyM]
    refine (hf a (by simp)).bind fun b _ => ?_
    cases b
    · exact ih fun a ha => hf a (by simp [ha])
    · exact agrees_pure trivial

theorem Agrees.findM? {f g : α → Run σ Bool} {as : List α}
    (hf : ∀ a ∈ as, Agrees h c d (fun _ => True) (f a) (g a)) :
    Agrees h c d (fun r => ∀ a, r = some a → a ∈ as) (as.findM? f) (as.findM? g) := by
  induction as with
  | nil => exact agrees_pure (by simp)
  | cons a as ih =>
    rw [List.findM?, List.findM?]
    refine (hf a (by simp)).bind fun b _ => ?_
    cases b
    · exact (ih fun a ha => hf a (by simp [ha])).mono fun r hr a ha => by simp [hr a ha]
    · exact agrees_pure (by simp)

section Looks

variable {w : World σ}

/-- What is seen alike from every directory, and leaves no trace. -/
def Looks (h : Host σ) (w : World σ) (P : α → Prop) (act : Run σ α) : Prop :=
  ∃ r, (∀ here, act.go (h.startedIn here) w = (r, w)) ∧ ∀ a, r = .ok a → P a

theorem looks_pure {a : α} (ha : P a) : Looks h w P (pure a) :=
  ⟨.ok a, fun _ => rfl, by rintro _ ⟨⟩; exact ha⟩

theorem looks_fail (e : Failure) : Looks h w P (fail e) := ⟨.error e, fun _ => rfl, by rintro _ ⟨⟩⟩

theorem looks_ofExcept {ε : Type} {toFailure : ε → Failure} {x : Except ε α} :
    Looks h w (fun _ => True) (ofExcept toFailure x) :=
  ⟨x.mapError toFailure, fun _ => go_ofExcept _ _ _ _, fun _ _ => trivial⟩

theorem Looks.bind {x : Run σ α} {f : α → Run σ β} (hx : Looks h w P x)
    (hf : ∀ a, P a → Looks h w Q (f a)) : Looks h w Q (x >>= f) := by
  obtain ⟨r, hgo, hvalue⟩ := hx
  cases r with
  | error e => exact ⟨.error e, fun here => go_bind_error (hgo here) f, by rintro _ ⟨⟩⟩
  | ok a =>
    obtain ⟨r', hgo', hvalue'⟩ := hf a (hvalue a rfl)
    exact ⟨r', fun here => (go_bind_ok (hgo here) f).trans (hgo' here), hvalue'⟩

theorem Looks.attempt {x : Run σ α} (hx : Looks h w P x) : Looks h w (fun _ => True) (attempt x) := by
  obtain ⟨r, hgo, -⟩ := hx
  exact ⟨.ok r, fun here => by rw [go_attempt, hgo here], fun _ _ => trivial⟩

theorem looks_exists? {p : Path} (hp : p.isAbsolute = true) : Looks h w (fun _ => True) (exists? p) := by
  refine ⟨(w.tree.exists? [] p).mapError (Failure.ofRefusal p), fun here => ?_, fun _ _ => trivial⟩
  rw [exists?, go_askTree]
  exact congrArg (fun x => (Except.mapError _ x, w)) (FileTree.inquire_of_isAbsolute hp _ _)

theorem Looks.anyM {f : α → Run σ Bool} {as : List α}
    (hf : ∀ a ∈ as, Looks h w (fun _ => True) (f a)) : Looks h w (fun _ => True) (as.anyM f) := by
  induction as with
  | nil => exact looks_pure trivial
  | cons a as ih =>
    rw [List.anyM]
    refine (hf a (by simp)).bind fun b _ => ?_
    cases b
    · exact ih fun a ha => hf a (by simp [ha])
    · exact looks_pure trivial

/-- What is found has been asked about with success; if nothing is, all were asked in vain. -/
theorem Looks.findM? {f : α → Run σ Bool} {as : List α}
    (hf : ∀ a ∈ as, Looks h w (fun _ => True) (f a)) :
    Looks h w (fun found => match found with
      | some a => a ∈ as ∧ ∀ here, (f a).go (h.startedIn here) w = (.ok true, w)
      | none => ∀ a ∈ as, ∀ here, (f a).go (h.startedIn here) w = (.ok false, w)) (as.findM? f) := by
  induction as with
  | nil => exact looks_pure (by simp)
  | cons a as ih =>
    obtain ⟨r, hgo, -⟩ := hf a (by simp)
    rw [List.findM?]
    cases r with
    | error e => exact ⟨.error e, fun here => go_bind_error (hgo here) _, by rintro _ ⟨⟩⟩
    | ok b =>
      cases b with
      | true => exact ⟨.ok (some a), fun here => go_bind_ok (hgo here) _, by
          rintro _ ⟨⟩
          exact ⟨List.mem_cons_self, hgo⟩⟩
      | false =>
        obtain ⟨r', hgo', hvalue⟩ := ih fun a ha => hf a (by simp [ha])
        refine ⟨r', fun here => (go_bind_ok (hgo here) _).trans (hgo' here), fun found hfound => ?_⟩
        have hrest := hvalue found hfound
        cases found with
        | some x => exact ⟨List.mem_cons_of_mem _ hrest.1, hrest.2⟩
        | none => simpa using ⟨hgo, hrest⟩

/-- A search goes on past what is asked about in vain. -/
theorem go_findM?_append {f : α → Run σ Bool} {front : List α} (back : List α)
    (hfront : ∀ a ∈ front, (f a).go h w = (.ok false, w)) :
    ((front ++ back).findM? f).go h w = (back.findM? f).go h w := by
  induction front with
  | nil => rfl
  | cons a front ih =>
    rw [List.cons_append, List.findM?, go_bind_ok (hfront a (by simp))]
    exact ih fun a ha => hfront a (by simp [ha])

end Looks

end Run

end LintRunner
