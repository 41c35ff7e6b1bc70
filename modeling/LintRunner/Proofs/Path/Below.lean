import LintRunner.Path.Basic
import Mathlib.Data.List.Induction

/-! Paths and what lies below them: `p.down names` is the way from `p` along `names`, and every path
relative to `p` arises so. -/

namespace LintRunner.Path

variable {p q : Path} {names more : List String} {name : String}

def down (p : Path) (names : List String) : Path := { p with parts := p.parts ++ names }

@[simp] theorem down_nil (p : Path) : p.down [] = p := by simp [down]

@[simp] theorem down_down (p : Path) (names more : List String) :
    (p.down names).down more = p.down (names ++ more) := by simp [down]

theorem child_eq_down (p : Path) (name : String) : p.child name = p.down [name] := rfl

@[simp] theorem child_down (p : Path) (names : List String) (name : String) :
    (p.down names).child name = p.down (names ++ [name]) := by simp [child_eq_down]

@[simp] theorem down_parts (p : Path) (names : List String) :
    (p.down names).parts = p.parts ++ names := rfl

@[simp] theorem name_child (p : Path) (name : String) : (p.child name).name = name := by
  simp [child, Path.name]

@[simp] theorem name_down_append (p : Path) (names : List String) (name : String) :
    (p.down (names ++ [name])).name = name := by simp [down, Path.name]

@[simp] theorem parent_child (p : Path) (name : String) : (p.child name).parent = p := by
  simp [child, parent]

theorem down_injective (p : Path) : Function.Injective p.down := by
  intro xs ys heq
  have hparts : p.parts ++ xs = p.parts ++ ys := congrArg Path.parts heq
  exact List.append_cancel_left hparts

/-- Of two ways to one path, one is the end of the other. -/
theorem down_eq_down (heq : p.down names = q.down more) :
    (∃ between, q = p.down between ∧ names = between ++ more) ∨
      ∃ between, p = q.down between ∧ more = between ++ names := by
  obtain ⟨pa, ps⟩ := p
  obtain ⟨qa, qs⟩ := q
  simp only [down, Path.mk.injEq] at heq ⊢
  obtain ⟨rfl, hparts⟩ := heq
  rcases List.append_eq_append_iff.1 hparts with ⟨between, rfl, hnames⟩ | ⟨between, rfl, hmore⟩
  · exact .inl ⟨between, ⟨rfl, rfl⟩, hnames⟩
  · exact .inr ⟨between, ⟨rfl, rfl⟩, hmore⟩

theorem exists_eq_parent_down (p : Path) : ∃ names, p = p.parent.down names := by
  obtain ⟨anchor, parts⟩ := p
  rcases List.eq_nil_or_concat parts with rfl | ⟨front, name, rfl⟩
  · exact ⟨[], rfl⟩
  · exact ⟨[name], by simp [parent, down]⟩

theorem parent_of_nil (hparts : p.parts = []) : p.parent = p := by
  obtain ⟨anchor, parts⟩ := p
  cases hparts
  rfl

theorem parts_nil_or_child (p : Path) : p.parts = [] ∨ ∃ name, p = p.parent.child name := by
  obtain ⟨anchor, parts⟩ := p
  rcases List.eq_nil_or_concat parts with rfl | ⟨front, name, rfl⟩
  · exact .inl rfl
  · exact .inr ⟨name, by simp [parent, child]⟩

theorem eq_parent_child (hname : p.name = name) (hne : name ≠ "") : p = p.parent.child name := by
  rcases p.parts_nil_or_child with hnil | ⟨last, hchild⟩
  · rw [Path.name, hnil] at hname
    exact absurd hname.symm hne
  · rw [hchild, name_child] at hname
    rwa [hname] at hchild

theorem relativeTo?_eq_some_iff_down {below : Path} :
    q.relativeTo? p = some below ↔ below.anchor = .relative ∧ q = p.down below.parts :=
  relativeTo?_eq_some_iff

@[simp] theorem relativeTo?_down (p : Path) (names : List String) :
    (p.down names).relativeTo? p = some ⟨.relative, names⟩ :=
  relativeTo?_eq_some_iff_down.2 ⟨rfl, rfl⟩

/-- The names of `directory` are the first ones of the path. -/
def LiesIn (p directory : Path) : Prop := p.anchor = directory.anchor ∧ directory.parts <+: p.parts

theorem liesIn_iff_exists_down : p.LiesIn q ↔ ∃ names, p = q.down names := by
  obtain ⟨pa, ps⟩ := p
  obtain ⟨qa, qs⟩ := q
  simp only [LiesIn, down, Path.mk.injEq]
  constructor
  · rintro ⟨rfl, names, rfl⟩
    exact ⟨names, rfl, rfl⟩
  · rintro ⟨names, rfl, rfl⟩
    exact ⟨rfl, List.prefix_append _ _⟩

theorem liesIn_self (p : Path) : p.LiesIn p := ⟨rfl, List.prefix_rfl⟩

theorem LiesIn.of_parent (hp : p.parent.LiesIn q) : p.LiesIn q :=
  ⟨hp.1, hp.2.trans (List.dropLast_prefix p.parts)⟩

theorem LiesIn.of_relativeTo? {way : Path} (hway : p.relativeTo? q = some way) : p.LiesIn q :=
  liesIn_iff_exists_down.2 ⟨way.parts, (relativeTo?_eq_some_iff_down.1 hway).2⟩

theorem not_liesIn_of_relativeTo? (hnone : p.relativeTo? q = none) : ¬ p.LiesIn q := by
  intro hin
  obtain ⟨names, rfl⟩ := liesIn_iff_exists_down.1 hin
  rw [relativeTo?_down] at hnone
  cases hnone

theorem isAbsolute_of_anchor (hp : p.anchor = .root) : p.isAbsolute = true := by
  simp [isAbsolute, hp]

theorem isAbsolute_join (hp : p.isAbsolute = true) (q : Path) : (p / q).isAbsolute = true := by
  by_cases hq : q.isAbsolute = true
  · rwa [show p / q = q from if_pos hq]
  · rw [show p / q = { p with parts := p.parts ++ q.parts } from if_neg hq]
    exact hp

theorem join_of_relative (hp : p.anchor = .relative) :
    q / p = { q with parts := q.parts ++ p.parts } := if_neg (by simp [isAbsolute, hp])

theorem join_down (hp : p.anchor = .relative) : q / p.down names = (q / p).down names := by
  have hdown : (p.down names).anchor = .relative := hp
  rw [join_of_relative hdown, join_of_relative hp]
  simp [down]

theorem not_mem_join (hp : name ∉ p.parts) (hq : name ∉ q.parts) : name ∉ (p / q).parts := by
  by_cases habsolute : q.isAbsolute = true
  · rwa [show p / q = q from if_pos habsolute]
  · rw [show p / q = { p with parts := p.parts ++ q.parts } from if_neg habsolute]
    simp [hp, hq]

theorem parent_join (hp : p.anchor = .relative) (hparts : p.parts ≠ []) :
    (q / p).parent = q / p.parent := by
  have hparent : p.parent.anchor = .relative := hp
  rw [join_of_relative hp, join_of_relative hparent]
  simp [parent, List.dropLast_append_of_ne_nil hparts]

theorem mem_beginnings {α : Type} {xs ys : List α} :
    ys ∈ beginnings xs ↔ ∃ zs, zs ≠ [] ∧ xs = ys ++ zs := by
  induction xs generalizing ys with
  | nil => simp [beginnings]
  | cons x xs ih =>
    simp only [beginnings, List.mem_append, List.mem_map, List.mem_singleton]
    constructor
    · rintro (⟨front, hfront, rfl⟩ | rfl)
      · obtain ⟨zs, hzs, rfl⟩ := ih.1 hfront
        exact ⟨zs, hzs, rfl⟩
      · exact ⟨x :: xs, by simp, rfl⟩
    · rintro ⟨zs, hzs, heq⟩
      cases ys with
      | nil => exact .inr rfl
      | cons y ys =>
        obtain ⟨rfl, hrest⟩ := List.cons_eq_cons.1 heq
        exact .inl ⟨ys, ih.2 ⟨zs, hzs, hrest⟩, rfl⟩

/-- The parents of a path are those that it lies below. -/
theorem mem_parents : q ∈ p.parents ↔ ∃ names, names ≠ [] ∧ p = q.down names := by
  obtain ⟨pa, pp⟩ := p
  obtain ⟨qa, qp⟩ := q
  simp only [parents, List.mem_map, mem_beginnings, down, Path.mk.injEq]
  constructor
  · rintro ⟨front, ⟨names, hne, rfl⟩, rfl, rfl⟩
    exact ⟨names, hne, rfl, rfl⟩
  · rintro ⟨names, hne, rfl, rfl⟩
    exact ⟨qp, ⟨names, hne, rfl⟩, rfl, rfl⟩

theorem beginnings_concat {α : Type} (xs : List α) (x : α) :
    beginnings (xs ++ [x]) = xs :: beginnings xs := by
  induction xs with
  | nil => rfl
  | cons y xs ih => simp [beginnings, ih]

/-- From a path up, its base is met after those in between. -/
theorem self_and_parents_down (p : Path) (names : List String) :
    ∃ front, p.down names :: (p.down names).parents = front ++ p :: p.parents ∧
      ∀ q ∈ front, ∃ between, between ≠ [] ∧ between <+: names ∧ q = p.down between := by
  induction names using List.reverseRec with
  | nil => exact ⟨[], by simp, by simp⟩
  | append_singleton names name ih =>
    obtain ⟨front, heq, hfront⟩ := ih
    refine ⟨p.down (names ++ [name]) :: front, ?_, ?_⟩
    · have hparents : (p.down (names ++ [name])).parents = p.down names :: (p.down names).parents := by
        simp only [parents, down_parts, ← List.append_assoc, beginnings_concat]
        rfl
      rw [hparents, heq, List.cons_append]
    · intro q hq
      rcases List.mem_cons.1 hq with rfl | hq
      · exact ⟨names ++ [name], by simp, List.prefix_rfl, rfl⟩
      · obtain ⟨between, hne, hbetween, rfl⟩ := hfront q hq
        exact ⟨between, hne, hbetween.trans (List.prefix_append _ _), rfl⟩

end LintRunner.Path
