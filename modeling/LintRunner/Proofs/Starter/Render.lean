import LintRunner.Starter.Render
import Mathlib.Data.List.Dedup
import Mathlib.Data.List.Sort
import Mathlib.Data.String.Basic

/-! What a starter configuration is made of: the excludes of its components in order, each once, and the
first command of each name. -/

namespace LintRunner.Starter

variable {s : String} {ts : List String} {components : List Component}

theorem mem_insertText {t : String} : t ∈ insertText s ts ↔ t = s ∨ t ∈ ts := by
  induction ts with
  | nil => simp [insertText]
  | cons u rest ih =>
    unfold insertText
    split
    · next heq => simp [heq]
    · split
      · simp
      · rw [List.mem_cons, ih, List.mem_cons]
        tauto

theorem pairwise_insertText (hts : ts.Pairwise (· < ·)) : (insertText s ts).Pairwise (· < ·) := by
  induction ts with
  | nil => simp [insertText]
  | cons u rest ih =>
    obtain ⟨hu, hrest⟩ := List.pairwise_cons.1 hts
    unfold insertText
    split
    · exact hts
    · next hne =>
      split
      · next hlt =>
        refine List.pairwise_cons.2 ⟨fun t ht => ?_, hts⟩
        rcases List.mem_cons.1 ht with rfl | ht
        · exact hlt
        · exact lt_trans hlt (hu t ht)
      · next hge =>
        refine List.pairwise_cons.2 ⟨fun t ht => ?_, ih hrest⟩
        rcases mem_insertText.1 ht with rfl | ht
        · exact lt_of_le_of_ne (not_lt.1 hge) (Ne.symm hne)
        · exact hu t ht

theorem mem_excludesOf : s ∈ excludesOf components ↔ ∃ c ∈ components, s ∈ c.excludes := by
  rw [← List.mem_flatMap]
  unfold excludesOf
  induction components.flatMap Component.excludes with
  | nil => simp
  | cons t ts ih => rw [List.foldr_cons, mem_insertText, ih, List.mem_cons]

theorem pairwise_excludesOf (components : List Component) : (excludesOf components).Pairwise (· < ·) := by
  unfold excludesOf
  induction components.flatMap Component.excludes with
  | nil => exact List.Pairwise.nil
  | cons t ts ih => exact pairwise_insertText ih

/-- The excludes of some components are some of all there are, in the same order. -/
theorem excludesOf_sublist (components : List Component) :
    (excludesOf components).Sublist (excludesOf Component.every) := by
  refine List.sublist_of_subperm_of_pairwise (r := (· < ·)) (List.subperm_of_subset ?_ fun e he => ?_)
    (pairwise_excludesOf components) (pairwise_excludesOf Component.every)
  · exact (pairwise_excludesOf components).imp fun h => h.ne
  · obtain ⟨c, -, hc⟩ := mem_excludesOf.1 he
    exact mem_excludesOf.2 ⟨c, by cases c <;> decide, hc⟩

theorem eraseDups_filter (p : String → Bool) : ∀ l : List String, (l.filter p).eraseDups = l.eraseDups.filter p
  | [] => rfl
  | a :: l => by
    have ih := eraseDups_filter p (l.filter fun b => !b == a)
    rw [List.eraseDups_cons, List.filter_cons, List.filter_cons, ← ih, List.filter_filter]
    split
    · rw [List.eraseDups_cons, List.filter_filter]
      simp only [Bool.and_comm]
    · next hp =>
      -- What is equal to `a` does not pass the filter either.
      congr 1
      refine List.filter_congr fun b _ => ?_
      by_cases hb : b = a
      · subst hb
        simp [hp]
      · simp [hb]
termination_by l => l.length
decreasing_by exact Nat.lt_succ_of_le (List.length_filter_le _ l)

theorem map_name_firstOfEach (ds : List Declared) :
    (firstOfEach ds).map Declared.name = (ds.map Declared.name).eraseDups := by
  induction ds with
  | nil => rfl
  | cons d ds ih =>
    rw [firstOfEach, List.map_cons, List.map_cons, List.eraseDups_cons, eraseDups_filter, ← ih, List.filter_map]
    congr 2
    exact List.filter_congr fun e _ => by simp [beq_eq_decide]

theorem mem_of_mem_firstOfEach {ds : List Declared} {d : Declared} (hd : d ∈ firstOfEach ds) : d ∈ ds := by
  induction ds with
  | nil => exact hd
  | cons e ds ih =>
    rcases List.mem_cons.1 hd with rfl | hd
    · exact List.mem_cons_self
    · exact List.mem_cons_of_mem e (ih (List.mem_filter.1 hd).1)

theorem nodup_firstOfEach (ds : List Declared) : ((firstOfEach ds).map Declared.name).Nodup := by
  induction ds with
  | nil => exact List.nodup_nil
  | cons d ds ih =>
    rw [firstOfEach, List.map_cons, List.nodup_cons]
    refine ⟨fun hmem => ?_, ih.sublist (List.filter_sublist.map _)⟩
    obtain ⟨e, he, hname⟩ := List.mem_map.1 hmem
    simpa [hname] using (List.mem_filter.1 he).2

theorem mem_commandsOf {d : Declared} (hd : d ∈ commandsOf components) :
    ∃ c ∈ components, d ∈ c.commands := List.mem_flatMap.1 (mem_of_mem_firstOfEach hd)

theorem toList_render (components : List Component) : (render components).toList =
    ['\n'].intercalate ((excludeSection (excludesOf components)).map String.toList ++
      (commandsOf components).map fun d => (commandSection d).toList) := by
  rw [render, String.toList_intercalate, List.map_append, List.map_map]
  rfl

end LintRunner.Starter
