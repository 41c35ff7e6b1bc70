import LintRunner.Value
import Mathlib.Logic.Basic

/-! What a table holds under a key, before and after a change. -/

namespace LintRunner.Table

variable {t u : Table} {key key' : String} {v : Value}

theorem lookup_cons (e : String × Value) (t : Table) (key : String) :
    List.lookup key (e :: t) = if key = e.1 then some e.2 else t.lookup key := by
  by_cases hkey : key = e.1
  · rw [List.lookup_cons, hkey, beq_self_eq_true, if_pos rfl]
  · rw [List.lookup_cons, beq_false_of_ne hkey, if_neg hkey]

theorem lookup_append (t u : Table) (key : String) :
    (t ++ u).lookup key = (t.lookup key).or (u.lookup key) := by
  induction t with
  | nil => simp
  | cons e t ih =>
    rw [List.cons_append, lookup_cons, lookup_cons, ih]
    split <;> simp

theorem has_iff : t.has key = true ↔ ∃ e ∈ t, e.1 = key := by
  unfold has
  induction t with
  | nil => simp
  | cons e t ih =>
    rw [lookup_cons]
    simp only [List.mem_cons, exists_eq_or_imp, ← ih]
    by_cases hkey : key = e.1
    · simp [hkey]
    · simp only [if_neg hkey, Ne.symm hkey, false_or]

theorem lookup_eq_none_iff : t.lookup key = none ↔ ∀ e ∈ t, e.1 ≠ key := by
  rw [← Option.not_isSome_iff_eq_none]
  exact (not_congr has_iff).trans (by simp only [not_exists, not_and, ne_eq])

theorem lookup_replace (t : Table) (key : String) (v : Value) (key' : String) :
    (t.replace key v).lookup key' =
      if key' = key then (t.lookup key).map fun _ => v else t.lookup key' := by
  induction t with
  | nil => simp [replace]
  | cons e t ih =>
    have hcons : Table.replace (e :: t) key v =
        (if e.1 = key then (key, v) else e) :: Table.replace t key v := rfl
    rw [hcons, lookup_cons, lookup_cons, lookup_cons, ih]
    by_cases he : e.1 = key
    · simp only [he, if_true, Option.map_some]
      split <;> rfl
    · simp only [he, Ne.symm he, if_false]
      by_cases hkey : key' = key
      · simp [hkey, Ne.symm he]
      · simp [hkey]

theorem lookup_put (t : Table) (key : String) (v : Value) (key' : String) :
    (t.put key v).lookup key' = if key' = key then some v else t.lookup key' := by
  unfold put
  split
  · next hhas =>
    obtain ⟨u, hu⟩ := Option.isSome_iff_exists.1 hhas
    rw [lookup_replace, hu, Option.map_some]
  · next hno =>
    have hnone : t.lookup key = none := Option.not_isSome_iff_eq_none.1 hno
    rw [lookup_append, lookup_cons, List.lookup_nil]
    by_cases hkey : key' = key
    · simp [hkey, hnone]
    · simp [hkey]

end LintRunner.Table
