import LintRunner.Proofs.Pass.Steps
import LintRunner.Proofs.Pass.Targets

/-! Targets that keep out of each other's way. Each owns the regular files inside it, which are all that its
command may write; none of them is looked at for another. Whatever has become of the others, a step of
a target then comes to the same and touches only what the target owns. -/

namespace LintRunner

open Run World Pass FileTree

variable {σ : Type} {h : Host σ} {a : Action} {w w' : World σ} {tree tree' : FileTree} {l : Location}
  {p : Path} {s : Stage} {t u : Target}

namespace Round

section Definitions

variable (h : Host σ) (a : Action) (x : Round σ)

def full (t : Target) : Path := x.filter.root / t.path

/-- The paths inside a target: the file itself, or the direct members of the directory. -/
def Inside (t : Target) (p : Path) : Prop :=
  if x.scope = .files then p = x.full t else ∃ name, p = (x.full t).child name

/-- A path inside the target leads there, to a regular file or to nothing yet. -/
def Owns (t : Target) (l : Location) : Prop :=
  x.begun.tree.Plain l ∧ ∃ p, x.Inside t p ∧ x.begun.tree.place? h.cwd p = some l

/-- What is there is looked at for the target, or it may be the program. -/
def LooksAt (t : Target) (l : Location) : Prop :=
  (∃ p, (p = x.full t ∨ x.Inside t p) ∧ x.begun.tree.place? h.cwd p = some l) ∨
    ∃ r, x.filter.requestFor a t.path t.files x.scope = .ok r ∧
      ∃ raw ∈ Exec.candidates r.exe (Exec.searchPath (Exec.overlay h.env r.env)),
        x.begun.tree.programPlace? h.cwd raw = some l

/-- No two targets lead to one file, and no file of a target is the program of another. -/
def Apart : Prop :=
  ∀ t ∈ x.targets, ∀ u ∈ x.targets, t ≠ u → ∀ l, x.LooksAt h a t l → ¬ x.Owns h u l

/-- A tree that the commands of the round can have made. -/
structure Near (tree : FileTree) : Prop where
  alike : Alike (fun l => ∃ t ∈ x.targets, x.Owns h t l) x.begun.tree tree
  proper : tree.Proper

/-- The command writes nothing but files of the target, and what it does and comes to depends on these
alone. -/
structure ConfinedTo (t : Target) (s : Spawn) : Prop where
  writes : ∀ tree mind, x.Near h tree → x.Near h (h.spawn s tree mind).2.1 ∧
    ∀ l, ¬ x.Owns h t l → (h.spawn s tree mind).2.1.get? l = tree.get? l
  depends : ∀ tree tree' mind mind', x.Near h tree → x.Near h tree' →
    (∀ l, x.Owns h t l → tree.get? l = tree'.get? l) →
    (h.spawn s tree mind).1 = (h.spawn s tree' mind').1 ∧
      ∀ l, x.Owns h t l → (h.spawn s tree mind).2.1.get? l = (h.spawn s tree' mind').2.1.get? l

/-- Every command that can be started for a target is confined to it. -/
def Confined : Prop :=
  ∀ t ∈ x.targets, ∀ r, x.filter.requestFor a t.path t.files x.scope = .ok r →
    ∀ s, r.Starts h x.begun s → x.ConfinedTo h t s

/-- The targets of a round that can be taken in any order. -/
structure Independent : Prop where
  proper : x.begun.tree.Proper
  nodup : x.targets.Nodup
  relative : ∀ t ∈ x.targets, t.path.anchor = .relative
  apart : x.Apart h a
  confined : x.Confined h a

/-- The same is in both trees wherever it is looked for the target. -/
def SameFor (t : Target) (tree tree' : FileTree) : Prop :=
  ∀ l, x.LooksAt h a t l → tree.get? l = tree'.get? l

/-- A stage that a target can have come to. -/
def Reached (t : Target) (s : Stage) : Prop :=
  ∀ before, s = .ready (some before) ∨ s = .ran before →
    Snapshot.Took x.begun.tree h.cwd x.filter.root (x.full t) before ∧
      (x.scope = .files → before.directory = none)

/-- What a step of the target leaves behind. -/
structure Step (t : Target) (w w' : World σ) : Prop where
  near : x.Near h w'.tree
  others : ∀ l, ¬ x.Owns h t l → w'.tree.get? l = w.tree.get? l
  printed : w'.printed = w.printed

end Definitions

variable {x : Round σ}

theorem Owns.looksAt (hl : x.Owns h t l) : x.LooksAt h a t l := by
  obtain ⟨-, p, hp, hplace⟩ := hl
  exact .inl ⟨p, .inr hp, hplace⟩

theorem Independent.near_begun (hx : x.Independent h a) : x.Near h x.begun.tree :=
  ⟨Alike.refl fun _ ⟨_, _, hown⟩ => hown.1, hx.proper⟩

theorem Near.alike_of_near (htree : x.Near h tree) (htree' : x.Near h tree') :
    Alike (fun l => ∃ t ∈ x.targets, x.Owns h t l) tree tree' := htree.alike.symm.trans htree'.alike

theorem SameFor.sameAt (htree : x.Near h tree) (hsame : x.SameFor h a t tree tree')
    (hp : p = x.full t ∨ x.Inside t p) : SameAt tree tree' h.cwd p := by
  intro l hl
  rw [← htree.alike.place?_eq] at hl
  exact hsame l (.inl ⟨p, hp, hl⟩)

theorem Step.of_silent (hw : x.Near h w.tree) (hsilent : Silent w w') : x.Step h t w w' :=
  ⟨hsilent.tree ▸ hw, fun l _ => by rw [hsilent.tree], hsilent.printed⟩

theorem Step.trans {w'' : World σ} (h₁ : x.Step h t w w') (h₂ : x.Step h t w' w'') : x.Step h t w w'' :=
  ⟨h₂.near, fun l hl => (h₂.others l hl).trans (h₁.others l hl), h₂.printed.trans h₁.printed⟩

/-- What other targets look at stays as it is. -/
theorem Step.sameFor (hx : x.Independent h a) (ht : t ∈ x.targets) (hu : u ∈ x.targets) (hne : u ≠ t)
    (hstep : x.Step h t w w') : x.SameFor h a u w'.tree w.tree :=
  fun l hl => hstep.others l (hx.apart u hu t ht hne l hl)

/-- Nothing but the bytes of a file that a target owns. -/
theorem Near.put (htree : x.Near h tree) (ht : t ∈ x.targets) (hown : x.Owns h t l) {bytes : ByteArray}
    {executable : Bool} (hl : tree.get? l = some (.file bytes executable)) (after : ByteArray) :
    x.Near h (tree.put l (.file after executable)) ∧
      ∀ k, ¬ x.Owns h t k → (tree.put l (.file after executable)).get? k = tree.get? k := by
  have htop : l ≠ [] := by
    rintro rfl
    cases hl
  have hkey : l ∈ tree.entries.map (·.1) := by
    rw [FileTree.get?, if_neg htop] at hl
    exact List.mem_map_of_mem (mem_entries_of_lookup hl)
  have hothers : ∀ k, ¬ x.Owns h t k → (tree.put l (.file after executable)).get? k = tree.get? k := by
    intro k hk
    rw [get?_put htop, if_neg fun heq : k = l => hk (heq ▸ hown)]
  refine ⟨⟨⟨fun k hk => ?_, htree.alike.before, fun k hk => ?_⟩, htree.proper.put hkey _⟩, hothers⟩
  · rw [hothers k fun hk' => hk ⟨t, ht, hk'⟩]
    exact htree.alike.outside k hk
  · by_cases hkl : k = l
    · exact .inr ⟨after, executable, by rw [get?_put htop, if_pos hkl]⟩
    · unfold Plain
      rw [get?_put htop, if_neg hkl]
      exact htree.alike.after k hk

/-- The places that are looked at for a target that is a file. -/
def looked (h : Host σ) (a : Action) (x : Round σ) (t : Target) : List Location :=
  (x.begun.tree.place? h.cwd (x.full t)).toList ++
    match x.filter.requestFor a t.path t.files x.scope with
    | .ok r => (Exec.candidates r.exe (Exec.searchPath (Exec.overlay h.env r.env))).filterMap
        (x.begun.tree.programPlace? h.cwd)
    | .error _ => []

theorem apart_of_looked (hscope : x.scope = .files) (hall : ∀ t ∈ x.targets, ∀ u ∈ x.targets, t ≠ u →
      ∀ l ∈ x.looked h a t, x.begun.tree.place? h.cwd (x.full u) ≠ some l) : x.Apart h a := by
  intro t ht u hu hne l hl
  rintro ⟨-, p, hp, hplace⟩
  have hown : p = x.full u := by simpa [Inside, hscope] using hp
  refine hall t ht u hu hne l ?_ (hown ▸ hplace)
  rcases hl with ⟨q, hq, hplace⟩ | ⟨r, hr, raw, hraw, hplace⟩
  · have hq : q = x.full t := by simpa [Inside, hscope] using hq
    exact List.mem_append_left _ (by rw [← hq, hplace]; exact List.mem_singleton_self l)
  · refine List.mem_append_right _ ?_
    rw [hr]
    exact List.mem_filterMap.2 ⟨raw, hraw, hplace⟩

/-- How the same part of a target compares that is run in two worlds. -/
structure Pair {α : Type} (h : Host σ) (a : Action) (x : Round σ) (t : Target) (w w' : World σ)
    (P : α → Prop) (r r' : α × World σ) : Prop where
  outcome : r.1 = r'.1
  value : P r.1
  same : x.SameFor h a t r.2.tree r'.2.tree
  left : x.Step h t w r.2
  right : x.Step h t w' r'.2

theorem Pair.of_repeats {α : Type} {P : α → Prop} {act : Run σ α} (hw : x.Near h w.tree)
    (hw' : x.Near h w'.tree) (hsame : x.SameFor h a t w.tree w'.tree)
    (hact : Repeats h w.tree w'.tree P act) :
    Pair h a x t w w' (fun r => ∀ v, r = .ok v → P v) (act.go h w) (act.go h w') := by
  obtain ⟨hends, hsilent, hsilent'⟩ := hact w w' rfl rfl
  refine ⟨hends.eq_of_common, ?_, ?_, .of_silent hw hsilent, .of_silent hw' hsilent'⟩
  · intro v hv
    rw [hv] at hends
    generalize (act.go h w').1 = r' at hends
    cases hends with
    | value hab => exact hab.2
  · rw [hsilent.tree, hsilent'.tree]
    exact hsame

/-- A stage that holds no snapshot. -/
theorem reached_of_ne (hready : ∀ before, s ≠ .ready (some before)) (hran : ∀ before, s ≠ .ran before) :
    x.Reached h t s := fun before hs => (hs.elim (hready before) (hran before)).elim

theorem reached_ended (r : Except Failure (Option Result)) : x.Reached h t (.ended r) :=
  reached_of_ne (by simp) (by simp)

theorem reached_of_took (hw : x.Near h w.tree) (hx : x.Independent h a) {before : Snapshot}
    (htook : Snapshot.Took w.tree h.cwd x.filter.root (x.full t) before)
    (hfile : x.scope = .files → w.tree.isDirectory? h.cwd (x.full t) ≠ .ok true) :
    x.Reached h t (.ready (some before)) := by
  rintro _ (⟨⟨⟩⟩ | hs)
  · refine ⟨htook.of_alike hw.alike.symm hx.proper.toSound, fun hscope => ?_⟩
    by_contra hdirectory
    obtain ⟨d, hd⟩ := Option.ne_none_iff_exists'.1 hdirectory
    exact hfile hscope (htook.directory d hd).2.1
  · cases hs

theorem repeats_waiting (hx : x.Independent h a) (hw : x.Near h w.tree) (hw' : x.Near h w'.tree)
    (hsame : x.SameFor h a t w.tree w'.tree) :
    Repeats h w.tree w'.tree (x.Reached h t) (Stage.waiting.advance a x.filter x.scope t) := by
  have halike := hw.alike_of_near hw'
  have hfull : SameAt w.tree w'.tree h.cwd (x.full t) := hsame.sameAt hw (.inl rfl)
  refine (x.filter.repeats_requireKind a).bind fun _ _ _ =>
    (x.filter.repeats_checkScope halike hfull x.scope).bind ?_
  rintro _ _ ⟨-, hfile⟩
  refine (x.filter.repeats_applies t.path t.files x.scope).bind ?_
  rintro b _ ⟨rfl, -⟩
  refine .ite (fun _ => .ite (fun htidy => ?_) fun _ => matches_pure ⟨rfl, reached_of_ne (by simp) (by simp)⟩)
    fun _ => matches_pure ⟨rfl, reached_ended _⟩
  have hmembers : w.tree.isDirectory? h.cwd (x.full t) = .ok true →
      ∀ name, SameAt w.tree w'.tree h.cwd ((x.full t).child name) := by
    intro hdir name
    have hscope : x.scope ≠ .files := fun hscope => hfile hscope hdir
    exact hsame.sameAt hw (.inr (by simp [Inside, hscope]))
  refine (Snapshot.repeats_capture halike hw.proper.toSound hw'.proper.toSound hfull hmembers).bind ?_
  rintro before _ ⟨rfl, htook⟩
  exact matches_pure ⟨rfl, reached_of_took hw hx htook hfile⟩

theorem repeats_ran (hx : x.Independent h a) (ht : t ∈ x.targets) (hw : x.Near h w.tree)
    (hw' : x.Near h w'.tree) (hsame : x.SameFor h a t w.tree w'.tree) {before : Snapshot}
    (hreached : x.Reached h t (.ran before)) :
    Repeats h w.tree w'.tree (x.Reached h t) ((Stage.ran before).advance a x.filter x.scope t) := by
  obtain ⟨htook, hfiles⟩ := hreached before (.inr rfl)
  have hmembers : before.directory ≠ none →
      ∀ name, SameAt w.tree w'.tree h.cwd ((x.full t).child name) := by
    intro hdirectory name
    have hscope : x.scope ≠ .files := fun hscope => hdirectory (hfiles hscope)
    exact hsame.sameAt hw (.inr (by simp [Inside, hscope]))
  have hinside : ∃ below, (x.full t).relativeTo? x.filter.root = some below :=
    ⟨t.path, Path.relativeTo?_eq_some_iff.2
      ⟨hx.relative t ht, if_neg (by simp [Path.isAbsolute, hx.relative t ht])⟩⟩
  refine (Snapshot.repeats_changed (hw.alike_of_near hw') hw.proper.toSound hw'.proper.toSound
    (htook.of_alike hw.alike hw.proper.toSound) (hsame.sameAt hw (.inl rfl)) hmembers hinside).bind ?_
  rintro b _ ⟨rfl, -⟩
  exact matches_pure ⟨rfl, reached_ended _⟩

theorem spawnOf_eq_of_sameFor (hw : x.Near h w.tree) (hw' : x.Near h w'.tree)
    (hsame : x.SameFor h a t w.tree w'.tree) :
    x.filter.requestFor a t.path t.files x.scope >>= Exec.spawnOf h w.tree =
      x.filter.requestFor a t.path t.files x.scope >>= Exec.spawnOf h w'.tree := by
  cases hr : x.filter.requestFor a t.path t.files x.scope with
  | error e => exact Eq.refl (Except.error e)
  | ok r =>
    refine Exec.spawnOf_eq r (hw.alike_of_near hw') hw.proper hw'.proper fun raw hraw l hl => ?_
    rw [← hw.alike.programPlace?_eq] at hl
    exact hsame l (.inr ⟨r, hr, raw, hraw, hl⟩)

theorem confinedTo_of_spawnOf (hx : x.Independent h a) (ht : t ∈ x.targets) (hw : x.Near h w.tree)
    {r : Exec.Request} {s : Spawn} (hr : x.filter.requestFor a t.path t.files x.scope = .ok r)
    (hs : Exec.spawnOf h w.tree r = .ok s) : x.ConfinedTo h t s := by
  have hstarts := Exec.starts_of_spawnOf r hs
  refine hx.confined t ht r hr s ⟨hstarts.program, ?_, hstarts.env⟩
  rw [hw.alike.resolve hx.proper hw.proper]
  exact hstarts.directory

/-- The same command is started, and it comes to the same. -/
theorem pair_start (hx : x.Independent h a) (ht : t ∈ x.targets) (hw : x.Near h w.tree)
    (hw' : x.Near h w'.tree) (hsame : x.SameFor h a t w.tree w'.tree) :
    Pair h a x t w w' (fun _ => True) ((x.filter.start a t.path t.files x.scope).go h w)
      ((x.filter.start a t.path t.files x.scope).go h w') := by
  have hspawn := spawnOf_eq_of_sameFor hw hw' hsame
  rcases x.filter.go_start a t.files x.scope h w (p := t.path) with
    ⟨e, w₁, he, hgo, hsilent⟩ | ⟨r, s, w₁, hr, hs, hgo, htree, hprinted⟩
  · rcases x.filter.go_start a t.files x.scope h w' (p := t.path) with
      ⟨e', w₁', he', hgo', hsilent'⟩ | ⟨r', s', w₁', hr', hs', -⟩
    · rw [he, he'] at hspawn
      cases hspawn
      rw [hgo, hgo']
      refine ⟨rfl, trivial, ?_, .of_silent hw hsilent, .of_silent hw' hsilent'⟩
      rw [hsilent.tree, hsilent'.tree]
      exact hsame
    · rw [he, hr'] at hspawn
      cases hspawn.trans hs'
  · rcases x.filter.go_start a t.files x.scope h w' (p := t.path) with
      ⟨e', w₁', he', -⟩ | ⟨r', s', w₁', hr', hs', hgo', htree', hprinted'⟩
    · rw [he', hr] at hspawn
      cases hs.symm.trans hspawn
    · cases hr.symm.trans hr'
      rw [hr] at hspawn
      cases (hs.symm.trans hspawn).trans hs'
      have hconfined := confinedTo_of_spawnOf hx ht hw hr hs
      obtain ⟨houtcome, hown⟩ := hconfined.depends _ _ w.mind w'.mind hw hw'
        fun l hl => hsame l hl.looksAt
      obtain ⟨hnear, hothers⟩ := hconfined.writes w.tree w.mind hw
      obtain ⟨hnear', hothers'⟩ := hconfined.writes w'.tree w'.mind hw'
      rw [hgo, hgo', ← houtcome]
      refine ⟨rfl, trivial, fun l hl => ?_, ⟨htree ▸ hnear, htree ▸ hothers, hprinted⟩,
        ⟨htree' ▸ hnear', htree' ▸ hothers', hprinted'⟩⟩
      rw [htree, htree']
      by_cases hl' : x.Owns h t l
      · exact hown l hl'
      · rw [hothers l hl', hothers' l hl', hsame l hl]

theorem Reached.onward {before : Option Snapshot} (hs : x.Reached h t (.ready before)) (o : Exec.Output) :
    x.Reached h t (Stage.onward a x.filter before o) := by
  cases before with
  | some before =>
    rintro _ (hready | hran)
    · cases hready
    · cases hran
      exact hs before (.inl rfl)
  | none =>
    cases a with
    | lint => exact reached_ended _
    | tidy => exact reached_ended _

theorem pair_advance (hx : x.Independent h a) (ht : t ∈ x.targets) (hw : x.Near h w.tree)
    (hw' : x.Near h w'.tree) (hsame : x.SameFor h a t w.tree w'.tree) (hs : x.Reached h t s) :
    Pair h a x t w w' (fun r => ∀ s, r = .ok s → x.Reached h t s)
      ((s.advance a x.filter x.scope t).go h w) ((s.advance a x.filter x.scope t).go h w') := by
  cases s with
  | waiting => exact .of_repeats hw hw' hsame (repeats_waiting hx hw hw' hsame)
  | ready before =>
    obtain ⟨houtcome, -, hsame', hleft, hright⟩ := pair_start hx ht hw hw' hsame
    rw [Stage.advance, bind_pure_comp, go_map, go_map]
    refine ⟨by rw [houtcome], ?_, hsame', hleft, hright⟩
    intro s hok
    cases hstart : ((x.filter.start a t.path t.files x.scope).go h w).1 with
    | error e =>
      rw [hstart] at hok
      cases hok
    | ok o =>
      rw [hstart] at hok
      cases hok
      exact hs.onward o
  | ran before => exact .of_repeats hw hw' hsame (repeats_ran hx ht hw hw' hsame hs)
  | ended r => exact .of_repeats hw hw' hsame (matches_pure ⟨rfl, reached_ended _⟩)

/-- From the same stage a step leads to the same stage. -/
theorem pair_after (hx : x.Independent h a) (ht : t ∈ x.targets) (hw : x.Near h w.tree)
    (hw' : x.Near h w'.tree) (hsame : x.SameFor h a t w.tree w'.tree) (hs : x.Reached h t s) :
    Pair h a x t w w' (x.Reached h t) (Stage.after h a x.filter x.scope t (s, w))
      (Stage.after h a x.filter x.scope t (s, w')) := by
  obtain ⟨houtcome, hvalue, hsame', hleft, hright⟩ := pair_advance hx ht hw hw' hsame hs
  unfold Stage.after
  revert houtcome hvalue hsame' hleft hright
  dsimp only
  rcases (s.advance a x.filter x.scope t).go h w with ⟨r, w₁⟩
  rcases (s.advance a x.filter x.scope t).go h w' with ⟨r', w₁'⟩
  dsimp only
  rintro rfl hvalue hsame' hleft hright
  cases r with
  | ok s' => exact ⟨rfl, hvalue s' rfl, hsame', hleft, hright⟩
  | error e =>
    change Pair h a x t w w' (x.Reached h t) (Stage.broken h x.filter t e w₁) (Stage.broken h x.filter t e w₁')
    unfold Stage.broken
    cases recorded? e with
    | none => exact ⟨rfl, reached_ended _, hsame', hleft, hright⟩
    | some reason =>
      let message := x.filter.name ++ " failed for " ++ t.path.text ++ ": " ++ reason
      have hsilent := silent_log (h := h) .debug message w₁
      have hsilent' := silent_log (h := h) .debug message w₁'
      refine ⟨rfl, reached_ended _, ?_, hleft.trans (.of_silent hleft.near hsilent),
        hright.trans (.of_silent hright.near hsilent')⟩
      intro l hl
      exact (congrArg (·.get? l) hsilent.tree).trans
        ((hsame' l hl).trans (congrArg (·.get? l) hsilent'.tree).symm)

end Round

end LintRunner
