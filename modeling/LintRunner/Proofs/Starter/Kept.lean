import LintRunner.Proofs.Path.Order
import LintRunner.Proofs.Starter.Write

/-! What writing a starter configuration leaves of what was there, and what it adds. Nothing that was there
is touched, unless the configuration's own path leads up from what is not there: the directory made for that
can let the path lead to a file. What is new is what the answer says has been written. -/

namespace LintRunner

variable {σ : Type} {h : Host σ} {w w' : World σ}

namespace FileTree

variable {t t' t'' : FileTree} {here l : Location} {p : Path} {d : Draft} {e : Entry} {executable : Bool}

/-- The difference that a file makes where it is put. -/
structure Puts (here : Location) (d : Draft) (t t' : FileTree) (l : Location) (executable : Bool) : Prop where
  place : t'.status here d.path = .ok (l, .file d.bytes executable)
  kept : ∀ k e, k ≠ l → t.get? k = some e → t'.get? k = some e
  new : ∀ k e, k ≠ l → t'.get? k = some e → t.get? k = some e ∨ e = .directory
  before : t.get? l = none ∧ executable = d.executable ∨ ¬ t.Grounded here d.path ∧
    ∃ old x, t.get? l = some (.file old x) ∧ executable = (x || d.executable)

/-- Nothing was there, or a file that was there already before the directories were made. -/
theorem Filled.puts (hfilled : Filled here d t t') : ∃ l executable, Puts here d t t' l executable := by
  obtain @⟨between, l, executable, hdirs, hplace, hothers, hbefore, -⟩ := hfilled
  refine ⟨l, executable, hplace, fun k e hk he => ?_, fun k e hk he => ?_, ?_⟩
  · rw [hothers k hk]
    exact hdirs.grown k e he
  · rw [hothers k hk] at he
    cases hold : t.get? k with
    | none => exact .inr (hdirs.new hold he).1
    | some x => exact .inl ((hdirs.grown k x hold).symm.trans he)
  · cases hold : t.get? l with
    | none =>
      rcases hbefore with ⟨-, hx⟩ | ⟨-, old, x, hover, -⟩
      · exact .inl ⟨rfl, hx⟩
      · cases (hdirs.new hold hover).1
    | some e =>
      have he := hdirs.grown l e hold
      rcases hbefore with ⟨hnone, -⟩ | ⟨hlost, old, x, hover, hx⟩
      · cases hnone.symm.trans he
      · cases he.symm.trans hover
        exact .inr ⟨hlost, old, x, rfl, hx⟩

theorem Alike.exists? {L : Location → Prop} (ht : Alike L t t') (hthere : ∀ l, L l → t'.get? l ≠ none)
    (hp : t.exists? here p = .ok true) : t'.exists? here p = .ok true := by
  obtain ⟨⟨k, e⟩, hs⟩ := exists?_eq_true_iff.1 hp
  obtain ⟨hk, he⟩ := place?_of_status hs
  have hsome : ∃ x, t'.get? k = some x := by
    by_cases hL : L k
    · exact Option.ne_none_iff_exists'.1 (hthere k hL)
    · exact ⟨e, by rw [← ht.outside k hL, he]⟩
  obtain ⟨x, hx⟩ := hsome
  rw [ht.place?_eq] at hk
  exact exists?_eq_true_iff.2 ⟨(k, x), by rw [status_of_place? hk, hx]⟩

theorem Filled.exists? (hfilled : Filled here d t t') (hp : t.exists? here p = .ok true) :
    t'.exists? here p = .ok true := by
  obtain @⟨between, l, executable, hdirs, hplace, hothers, hbefore, -⟩ := hfilled
  have hplain : between.Plain l := by
    rcases hbefore with ⟨hnone, -⟩ | ⟨-, old, x, hover, -⟩
    · exact .inl hnone
    · exact .inr ⟨old, x, hover⟩
  have hfile := (place?_of_status hplace).2
  have halike : Alike (· = l) between t' := by
    refine ⟨fun k hk => (hothers k hk).symm, ?_, ?_⟩
    · rintro _ rfl
      exact hplain
    · rintro _ rfl
      exact .inr ⟨_, _, hfile⟩
  refine halike.exists? ?_ (hdirs.grown.exists? hp)
  rintro _ rfl
  simp [hfile]

theorem Puts.fresh (hputs : Puts here d t t' l executable) (hgrounded : t.Grounded here d.path) :
    t.get? l = none ∧ executable = d.executable :=
  hputs.before.resolve_right fun hover => hover.1 hgrounded

theorem Puts.none_before (hputs : Puts here d t t' l executable) {k : Location} (hk : t'.get? k = none) :
    t.get? k = none := by
  have hne : k ≠ l := by
    rintro rfl
    cases hk.symm.trans (place?_of_status hputs.place).2
  cases he : t.get? k with
  | none => rfl
  | some e => cases hk.symm.trans (hputs.kept k e hne he)

/-- All is as it was; only what was in a file that the path led up to from what was not there can have been
lost to the new bytes or the first of them. -/
def Keeps (here : Location) (d : Draft) (t t' : FileTree) : Prop :=
  ∀ l e, t.get? l = some e → t'.get? l = some e ∨ ¬ t.Grounded here d.path ∧
    ∃ old x n, e = .file old x ∧
      t'.status here d.path = .ok (l, .file (d.bytes.extract 0 n) (x || d.executable))

theorem Puts.keeps {n : Nat}
    (hputs : Puts here { d with bytes := d.bytes.extract 0 n } t t' l executable) : Keeps here d t t' := by
  intro k e he
  by_cases hk : k = l
  · subst hk
    rcases hputs.before with ⟨hnone, -⟩ | ⟨hlost, old, x, hold, hx⟩
    · cases hnone.symm.trans he
    · cases hold.symm.trans he
      exact .inr ⟨hlost, old, x, n, rfl, hx ▸ hputs.place⟩
  · exact .inl (hputs.kept k e hk he)

theorem Grown.none_before (hgrown : Grown t t') (hl : t'.get? l = none) : t.get? l = none := by
  cases he : t.get? l with
  | none => rfl
  | some e => cases hl.symm.trans (hgrown l e he)

theorem Grown.keeps (hgrown : Grown t t') : Keeps here d t t' := fun l e he => .inl (hgrown l e he)

/-- Nothing is lost to a file that has been made but what its bytes are in the place of. -/
theorem Filled.keeps (hfilled : Filled here d t t') : Keeps here d t t' := by
  obtain ⟨l, executable, hputs⟩ := hfilled.puts
  have hwhole : d = { d with bytes := d.bytes.extract 0 d.bytes.size } := by
    rw [ByteArray.extract_zero_size]
  rw [hwhole] at hputs
  exact hputs.keeps

theorem Refused.keeps {f : Failure} (hrefused : Refused here d t t' f) (hx : d.executable = false) :
    Keeps here d t t' := by
  cases hrefused with
  | unopened _ hdirs => exact hdirs.grown.keeps
  | cutShort _ hfilled =>
    obtain ⟨l, executable, hputs⟩ := hfilled.puts
    rw [← hx] at hputs
    exact hputs.keeps
  | unmarked _ hmode =>
    rw [hx] at hmode
    cases hmode

theorem Keeps.grown (hkeeps : Keeps here d t t') (hgrown : Grown t' t'') : Keeps here d t t'' := by
  intro l e he
  rcases hkeeps l e he with hsame | ⟨hlost, old, x, n, hold, hplace⟩
  · exact .inl (hgrown l e hsame)
  · exact .inr ⟨hlost, old, x, n, hold, hgrown.status hplace⟩

/-- What comes of drafts that have been taken one after the other, each marked with whether it has been
made. -/
structure Adds (here : Location) (ds : List (Draft × Bool)) (t t' : FileTree) : Prop where
  grown : Grown t t'
  there : ∀ m ∈ ds, t'.exists? here m.1.path = .ok true
  made : ∀ m ∈ ds, m.2 = true → ∃ l, t.get? l = none ∧
    t'.status here m.1.path = .ok (l, .file m.1.bytes m.1.executable)
  new : ∀ l e, t'.get? l = some e → t.get? l = some e ∨ e = .directory ∨
    ∃ m ∈ ds, m.2 = true ∧ e = .file m.1.bytes m.1.executable ∧ t'.status here m.1.path = .ok (l, e)

theorem Settled.adds {b : Bool} (hsettled : Settled here d t t' b) (hgrounded : t.Grounded here d.path) :
    Adds here [(d, b)] t t' := by
  cases hsettled with
  | leftAlone hthere hsame =>
    subst hsame
    exact ⟨Grown.refl _, by simpa using hthere, by simp, fun l e he => .inl he⟩
  | made habsent hfilled =>
    obtain ⟨l, x, hputs⟩ := hfilled.puts
    obtain ⟨hnone, rfl⟩ := hputs.fresh hgrounded
    have hplace := hputs.place
    refine ⟨hfilled.grown hgrounded, ?_, ?_, fun k e he => ?_⟩
    · simpa using exists?_eq_true_iff.2 ⟨_, hplace⟩
    · simpa using ⟨l, hnone, hplace⟩
    · by_cases hk : k = l
      · subst hk
        cases he.symm.trans (place?_of_status hplace).2
        exact .inr (.inr ⟨_, List.mem_singleton_self _, rfl, rfl, hplace⟩)
      · exact (hputs.new k e hk he).imp_right .inl

theorem Adds.append {ds ds' : List (Draft × Bool)} (hadds : Adds here ds t t')
    (hadds' : Adds here ds' t' t'') : Adds here (ds ++ ds') t t'' := by
  refine ⟨hadds.grown.trans hadds'.grown, fun m hm => ?_, fun m hm hmade => ?_, fun l e he => ?_⟩
  · rcases List.mem_append.1 hm with hm | hm
    · exact hadds'.grown.exists? (hadds.there m hm)
    · exact hadds'.there m hm
  · rcases List.mem_append.1 hm with hm | hm
    · obtain ⟨l, hnone, hplace⟩ := hadds.made m hm hmade
      exact ⟨l, hnone, hadds'.grown.status hplace⟩
    · obtain ⟨l, hnone, hplace⟩ := hadds'.made m hm hmade
      exact ⟨l, hadds.grown.none_before hnone, hplace⟩
  · rcases hadds'.new l e he with hbefore | hdirectory | ⟨m, hm, hmade⟩
    · rcases hadds.new l e hbefore with hold | hdirectory | ⟨m, hm, hmade, hfile, hplace⟩
      · exact .inl hold
      · exact .inr (.inl hdirectory)
      · exact .inr (.inr ⟨m, List.mem_append_left _ hm, hmade, hfile, hadds'.grown.status hplace⟩)
    · exact .inr (.inl hdirectory)
    · exact .inr (.inr ⟨m, List.mem_append_right _ hm, hmade⟩)

theorem Lays.adds {ds : List (Draft × Bool)} (hlays : Lays here ds t t')
    (hgrounded : ∀ m ∈ ds, t.Grounded here m.1.path) : Adds here ds t t' := by
  induction hlays with
  | nil t => exact ⟨Grown.refl t, by simp, by simp, fun l e he => .inl he⟩
  | cons hd _ ih =>
    rw [List.forall_mem_cons] at hgrounded
    have hadds := hd.adds hgrounded.1
    have hrest := ih fun m hm => (hgrounded.2 m hm).mono fun q => hadds.grown.exists?
    exact hadds.append hrest

end FileTree

namespace Starter

open FileTree Run

section

variable {components : List Component} {config cwd : Path} {f g : SupportFile} {t t' : FileTree}
  {here : Location} {marks : List (SupportFile × Bool)}

theorem mem_distinct {α : Type} [DecidableEq α] {a : α} {as : List α} : a ∈ distinct as ↔ a ∈ as := by
  induction as with
  | nil => simp [distinct]
  | cons b rest ih =>
    by_cases hab : a = b
    · simp [distinct, hab]
    · simp [distinct, hab, ih]

theorem map_path_supportOf (components : List Component) : (supportOf components).map (·.path) =
    Path.sortedSet ((components.flatMap Component.support).map (·.path)) := by
  unfold supportOf
  dsimp only
  rw [List.map_filterMap]
  refine (List.filterMap_congr fun p hp => ?_).trans List.filterMap_some
  obtain ⟨f, hf, rfl⟩ := List.mem_map.1 (Path.mem_sortedSet.1 hp)
  cases hfind : (components.flatMap Component.support).find? (·.path == f.path) with
  | none => exact absurd (List.find?_eq_none.1 hfind f hf) (by simp)
  | some g => simpa using List.find?_some hfind

theorem find?_of_mem_supportOf (hf : f ∈ supportOf components) :
    (components.flatMap Component.support).find? (·.path == f.path) = some f := by
  obtain ⟨p, -, hfind⟩ := List.mem_filterMap.1 hf
  have hpath : f.path = p := by simpa using List.find?_some hfind
  rwa [hpath]

/-- There is one file for each path. -/
theorem eq_of_path_eq (hf : f ∈ supportOf components) (hg : g ∈ supportOf components)
    (hpath : f.path = g.path) : f = g := by
  have hfind := find?_of_mem_supportOf hf
  rw [hpath, find?_of_mem_supportOf hg] at hfind
  exact (Option.some.inj hfind).symm

theorem ascending_supportOf (components : List Component) :
    Path.Ascending ((supportOf components).map (·.path)) := by
  rw [map_path_supportOf]
  refine Path.ascending_sortedSet fun p hp => ?_
  obtain ⟨f, hf, rfl⟩ := List.mem_map.1 hp
  obtain ⟨c, -, hc⟩ := List.mem_flatMap.1 hf
  exact relative_support hc

theorem mem_paths_supportOf {p : Path} : p ∈ (supportOf (distinct components)).map (·.path) ↔
    ∃ c ∈ components, ∃ f ∈ c.support, f.path = p := by
  rw [map_path_supportOf, Path.mem_sortedSet]
  simp only [List.mem_map, List.mem_flatMap, mem_distinct]
  constructor
  · rintro ⟨f, ⟨c, hc, hf⟩, rfl⟩
    exact ⟨c, hc, f, hf, rfl⟩
  · rintro ⟨c, hc, f, hf, rfl⟩
    exact ⟨f, ⟨c, hc, hf⟩, rfl⟩

theorem grounded_support (hcwd : t.Grounded here cwd) (hf : f ∈ supportOf components) :
    t.Grounded here (cwd / f.path) := by
  obtain ⟨c, -, hc⟩ := exists_of_mem_supportOf hf
  exact hcwd.join (relative_support hc) (up_not_mem_support hf)

theorem adds_of_lays (hcwd : t.Grounded here cwd) (hmarks : ∀ m ∈ marks, m.1 ∈ supportOf components)
    (hlays : Lays here (marked cwd marks) t t') : Adds here (marked cwd marks) t t' := by
  refine hlays.adds fun m hm => ?_
  obtain ⟨mark, hmark, rfl⟩ := List.mem_map.1 hm
  exact grounded_support hcwd (hmarks mark hmark)

/-- The answer accounts for all that is new, and names each support file once. -/
structure Accounts (here : Location) (config : Path) (components : List Component) (cwd : Path)
    (t t' : FileTree) (out : Written) : Prop where
  written : Path.Ascending out.written
  skipped : Path.Ascending out.skipped
  apart : ∀ p ∈ out.written, p ∉ out.skipped
  each : ∀ p, p ∈ out.written ∨ p ∈ out.skipped ↔ ∃ c ∈ components, ∃ f ∈ c.support, f.path = p
  left : ∀ p ∈ out.skipped, t'.exists? here (cwd / p) = .ok true
  made : ∀ f ∈ supportOf (distinct components), f.path ∈ out.written → ∃ l, t.get? l = none ∧
    t'.status here (cwd / f.path) = .ok (l, .file (withEnds f.lines).toUTF8 f.executable)
  whole : ∃ l x, t'.status here (cwd / config) = .ok (l, .file (render (distinct components)).toUTF8 x) ∧
    (t.Grounded here (cwd / config) → t.get? l = none ∧ x = false)
  new : ∀ l bytes x, t'.get? l = some (.file bytes x) → t.get? l = some (.file bytes x) ∨
    t'.status here (cwd / config) = .ok (l, .file bytes x) ∨
    ∃ f ∈ supportOf (distinct components), f.path ∈ out.written ∧
      t'.status here (cwd / f.path) = .ok (l, .file bytes x)

theorem mem_made_or_skipped {p : Path} :
    p ∈ (marks.filter (·.2)).map (·.1.path) ∨ p ∈ (marks.filter (!·.2)).map (·.1.path) ↔
      p ∈ marks.map (·.1.path) := by
  simp only [List.mem_map, List.mem_filter, Bool.not_eq_eq_eq_not, Bool.not_true]
  constructor
  · rintro (⟨m, ⟨hm, -⟩, rfl⟩ | ⟨m, ⟨hm, -⟩, rfl⟩)
    · exact ⟨m, hm, rfl⟩
    · exact ⟨m, hm, rfl⟩
  · rintro ⟨m, hm, rfl⟩
    cases hmade : m.2 with
    | true => exact .inl ⟨m, ⟨hm, hmade⟩, rfl⟩
    | false => exact .inr ⟨m, ⟨hm, hmade⟩, rfl⟩

theorem not_made_and_skipped (hnodup : (marks.map (·.1.path)).Nodup) :
    ∀ p ∈ (marks.filter (·.2)).map (·.1.path), p ∉ (marks.filter (!·.2)).map (·.1.path) := by
  intro p hmade hskipped
  simp only [List.mem_map, List.mem_filter, Bool.not_eq_eq_eq_not, Bool.not_true] at hmade hskipped
  obtain ⟨m, ⟨hm, hyes⟩, rfl⟩ := hmade
  obtain ⟨m', ⟨hm', hno⟩, hpath⟩ := hskipped
  obtain rfl := List.inj_on_of_nodup_map hnodup hm' hm hpath
  rw [hyes] at hno
  cases hno

theorem accounts_of_adds {t₁ : FileTree} {l₀ : Location} {x₀ : Bool} {tools : List String}
    (hputs : Puts here (configDraft config components cwd) t t₁ l₀ x₀)
    (hfiles : marks.map (·.1) = supportOf (distinct components))
    (hadds : Adds here (marked cwd marks) t₁ t') :
    Accounts here config components cwd t t' {
      config, components := distinct components
      written := (marks.filter (·.2)).map (·.1.path)
      skipped := (marks.filter (!·.2)).map (·.1.path)
      tools } := by
  have hpaths : marks.map (·.1.path) = (supportOf (distinct components)).map (·.path) := by
    rw [← hfiles, List.map_map]
    rfl
  have hascending : Path.Ascending (marks.map (·.1.path)) := hpaths ▸ ascending_supportOf _
  have hmem (m) (hm : m ∈ marks) : m.1 ∈ supportOf (distinct components) :=
    hfiles ▸ List.mem_map_of_mem hm
  have hdraft (m) (hm : m ∈ marks) : (m.1.draft cwd, m.2) ∈ marked cwd marks :=
    List.mem_map.2 ⟨m, hm, rfl⟩
  have hplace := (place?_of_status hputs.place).2
  refine ⟨hascending.sublist (List.filter_sublist.map _), hascending.sublist (List.filter_sublist.map _),
    not_made_and_skipped hascending.nodup, fun p => ?_, ?_, ?_, ?_, ?_⟩
  · rw [mem_made_or_skipped, hpaths, mem_paths_supportOf]
  · intro p hp
    obtain ⟨m, hm, rfl⟩ := List.mem_map.1 hp
    exact hadds.there _ (hdraft m (List.mem_filter.1 hm).1)
  · intro f hf hwritten
    obtain ⟨m, hm, hpath⟩ := List.mem_map.1 hwritten
    obtain ⟨hm, hmade⟩ := List.mem_filter.1 hm
    obtain rfl := eq_of_path_eq (hmem m hm) hf hpath
    obtain ⟨l, hnone, hl⟩ := hadds.made _ (hdraft m hm) hmade
    exact ⟨l, hputs.none_before hnone, hl⟩
  · exact ⟨l₀, x₀, hadds.grown.status hputs.place, hputs.fresh⟩
  · intro l bytes x he
    rcases hadds.new l _ he with hbefore | hdirectory | ⟨m, hm, hmade, -, hl⟩
    · by_cases hl : l = l₀
      · subst hl
        cases hbefore.symm.trans hplace
        exact .inr (.inl (hadds.grown.status hputs.place))
      · exact .inl ((hputs.new l _ hl hbefore).resolve_right (by simp))
    · cases hdirectory
    · obtain ⟨mark, hmark, rfl⟩ := List.mem_map.1 hm
      have hwritten : mark.1.path ∈ (marks.filter (·.2)).map (·.1.path) :=
        List.mem_map.2 ⟨mark, List.mem_filter.2 ⟨hmark, hmade⟩, rfl⟩
      exact .inr (.inr ⟨mark.1, hmem mark hmark, hwritten, hl⟩)

/-- However it ends, all that was there is as it was, but for what was in the file that the path of the
configuration leads up to from what was not there. Where it ends well, the answer accounts for the rest. -/
theorem write_keeps {r : Except Failure Written} (hnested : w.tree.Nested) (hcwd : w.tree.Grounded h.cwd cwd)
    (hgo : (write config components cwd).go h w = (r, w')) :
    Keeps h.cwd (configDraft config components cwd) w.tree w'.tree ∧
    ∀ out, r = .ok out → Accounts h.cwd config components cwd w.tree w'.tree out := by
  cases ends_write hnested hgo with
  | already hthere hsame =>
    rw [hsame]
    exact ⟨(Grown.refl _).keeps, nofun⟩
  | refused hrefused => exact ⟨hrefused.keeps rfl, nofun⟩
  | @short _ _ _ front f back habsent hconfig hfiles hlays hrefused =>
    have hmarks : ∀ m ∈ front, m.1 ∈ supportOf (distinct components) := fun m hm =>
      hfiles ▸ List.mem_append_left _ (List.mem_map_of_mem hm)
    have hf : f ∈ supportOf (distinct components) := hfiles ▸ List.mem_append_right _ List.mem_cons_self
    have hcwd₁ := hcwd.mono fun _ => hconfig.exists?
    have hadds := adds_of_lays hcwd₁ hmarks hlays
    have hgrounded := grounded_support (hcwd₁.mono fun _ => hadds.grown.exists?) hf
    exact ⟨hconfig.keeps.grown (hadds.grown.trans (hrefused.grown hgrounded)), nofun⟩
  | @whole _ marks habsent hconfig hfiles hlays =>
    obtain ⟨l, x, hputs⟩ := hconfig.puts
    have hmarks : ∀ m ∈ marks, m.1 ∈ supportOf (distinct components) := fun m hm =>
      hfiles ▸ List.mem_map_of_mem hm
    have hadds := adds_of_lays (hcwd.mono fun _ => hconfig.exists?) hmarks hlays
    refine ⟨hconfig.keeps.grown hadds.grown, ?_⟩
    rintro _ ⟨⟩
    exact accounts_of_adds hputs hfiles hadds

end

namespace Linked

/-- The configuration is to go through a link that leads nowhere yet, and one of two support files is there
already. -/
def before : World Script := ⟨⟨[(["p"], .directory), (["p", "etc"], .directory),
  (["p", "gemlint.toml"], .link "etc/lint.toml"), (["p", ".golangci.yml"], .file .empty true)]⟩,
  {}, [], {}, .warning⟩

def host : Host Script := Script.host ["p"] [] false false

def root : Path := ⟨.root, ["p"]⟩

def config : Path := ⟨.relative, ["gemlint.toml"]⟩

theorem write_goes : (write config [.go, .go] root).comesTo host before (fun out w' =>
    decide (out.written = [checkGoMod.path] ∧ out.skipped = [golangci.path]) &&
      (w'.tree.get? ["p", "etc", "lint.toml"]).isSome) = true := by decide +kernel

end Linked

open Linked in
theorem write_keeps_linked : before.tree.Nested ∧ before.tree.Grounded host.cwd root ∧ ∃ out w',
    (write config [.go, .go] root).go host before = (.ok out, w') ∧ out.written = [checkGoMod.path] ∧
      out.skipped = [golangci.path] ∧ (w'.tree.get? ["p", "etc", "lint.toml"]).isSome = true ∧
      Keeps host.cwd (configDraft config [.go, .go] root) before.tree w'.tree ∧
      Accounts host.cwd config [.go, .go] root before.tree w'.tree out := by
  have hnested : before.tree.Nested := by decide
  have hcwd : before.tree.Grounded host.cwd root := grounded_of_status (l := ["p"]) (e := .directory) rfl
  obtain ⟨out, w', hgo, hends⟩ := of_comesTo write_goes
  obtain ⟨hout, hnew⟩ := Bool.and_eq_true_iff.1 hends
  obtain ⟨hwritten, hskipped⟩ := of_decide_eq_true hout
  obtain ⟨hkeeps, haccounts⟩ := write_keeps hnested hcwd hgo
  exact ⟨hnested, hcwd, out, w', hgo, hwritten, hskipped, hnew, hkeeps, haccounts out rfl⟩

namespace Replaced

/-- A configuration, and no directory beside it that its path could lead up from. -/
def before : World Script :=
  ⟨⟨[(["p"], .directory), (["p", "gemlint.toml"], .file .empty false)]⟩, {}, [], {}, .warning⟩

def config : Path := ⟨.relative, ["new", "..", "gemlint.toml"]⟩

end Replaced

open Replaced in
/-- The configuration that was there is lost once the directory is made that the path leads up from. -/
theorem not_write_keeps : ¬ ∀ (config cwd : Path) (components : List Component) (h : Host Script)
    (w w' : World Script) (r : Except Failure Written), w.tree.Nested →
    w.tree.isDirectory? h.cwd cwd = .ok true → (write config components cwd).go h w = (r, w') →
    ∀ l bytes x, w.tree.get? l = some (.file bytes x) → w'.tree.get? l = some (.file bytes x) := by
  intro hall
  have hlost : (write config [.rust] Linked.root).comesTo Linked.host before (fun _ w' =>
      decide (w'.tree.get? ["p", "gemlint.toml"] ≠ some (.file .empty false))) = true := by decide +kernel
  obtain ⟨out, w', hgo, hlost⟩ := of_comesTo hlost
  have hnested : before.tree.Nested := by decide
  exact of_decide_eq_true hlost (hall _ _ _ _ _ _ _ hnested rfl hgo ["p", "gemlint.toml"] .empty false rfl)

end Starter

end LintRunner
