import LintRunner.Path.Basic
import Mathlib.Data.List.Nodup

/-! Paths without an anchor are ordered by their names alone, and no two of them share a place in
that order: their set in order names each of them once. -/

namespace LintRunner.Path

variable {p q r : Path} {ps : List Path}

theorem before_irrefl (p : Path) : p.before p = false := decide_eq_false (List.lt_irrefl _)

theorem before_trans (hpq : p.before q = true) (hqr : q.before r = true) : p.before r = true :=
  decide_eq_true (List.lt_trans (of_decide_eq_true hpq) (of_decide_eq_true hqr))

theorem before_of_not_before (hp : p.anchor = .relative) (hq : q.anchor = .relative) (hne : p ≠ q)
    (hpq : p.before q = false) : q.before p = true := by
  obtain ⟨pa, ps⟩ := p
  obtain ⟨qa, qs⟩ := q
  cases hp
  cases hq
  rcases List.le_iff_lt_or_eq.1 (List.not_lt.1 (of_decide_eq_false hpq)) with hlt | heq
  · exact decide_eq_true hlt
  · have hparts : qs = ps := heq
    exact absurd (by rw [hparts]) hne

/-- In order, each before all that follow it. -/
def Ascending (ps : List Path) : Prop := ps.Pairwise fun p q => p.before q = true

theorem Ascending.nodup (hps : Ascending ps) : ps.Nodup := by
  apply hps.imp
  intro p q hpq heq
  subst heq
  rw [before_irrefl] at hpq
  cases hpq

theorem ascending_insert (hp : p.anchor = .relative) (hrel : ∀ q ∈ ps, q.anchor = .relative)
    (hps : Ascending ps) : Ascending (insert p ps) := by
  induction ps with
  | nil => exact List.pairwise_singleton _ _
  | cons q rest ih =>
    obtain ⟨hq, hrest⟩ := List.pairwise_cons.1 hps
    simp only [insert]
    split
    · exact hps
    · next hne =>
      split
      · next hpq =>
        refine List.pairwise_cons.2 ⟨?_, hps⟩
        intro r hr
        rcases List.mem_cons.1 hr with rfl | hr
        · exact hpq
        · exact before_trans hpq (hq r hr)
      · next hpq =>
        have hlater := ih (fun r hr => hrel r (by simp [hr])) hrest
        refine List.pairwise_cons.2 ⟨?_, hlater⟩
        intro r hr
        rcases mem_insert.1 hr with rfl | hr
        · exact before_of_not_before hp (hrel q (by simp)) hne (by simpa using hpq)
        · exact hq r hr

theorem ascending_sortedSet (hrel : ∀ q ∈ ps, q.anchor = .relative) : Ascending (sortedSet ps) := by
  induction ps with
  | nil => exact List.Pairwise.nil
  | cons p rest ih =>
    have hrest : ∀ q ∈ rest, q.anchor = .relative := fun q hq => hrel q (by simp [hq])
    exact ascending_insert (hrel p (by simp)) (fun q hq => hrest q (mem_sortedSet.1 hq)) (ih hrest)

theorem Ascending.eq_of_mem (hps : Ascending ps) {qs : List Path} (hqs : Ascending qs)
    (hmem : ∀ p, p ∈ ps ↔ p ∈ qs) : ps = qs := by
  have hperm : ps.Perm qs := (List.perm_ext_iff_of_nodup hps.nodup hqs.nodup).2 hmem
  refine hperm.eq_of_pairwise (fun p q _ _ hpq hqp => ?_) hps hqs
  have hcircle := before_trans hpq hqp
  rw [before_irrefl] at hcircle
  cases hcircle

theorem place_perm (p : Path) (ps : List Path) : (place p ps).Perm (p :: ps) := by
  induction ps with
  | nil => exact .refl _
  | cons q rest ih =>
    simp only [place]
    split
    · exact (ih.cons q).trans (.swap p q rest)
    · exact .refl _

theorem sorted_perm (ps : List Path) : (sorted ps).Perm ps := by
  induction ps with
  | nil => exact .refl _
  | cons p rest ih => exact (place_perm p _).trans (ih.cons p)

theorem before_eq_false_trans (hqp : q.before p = false) (hrq : r.before q = false) :
    r.before p = false := by
  have hpq := List.not_lt.1 (of_decide_eq_false hqp)
  have hqr := List.not_lt.1 (of_decide_eq_false hrq)
  exact decide_eq_false (List.not_lt.2 (List.le_trans hpq hqr))

theorem place_pairwise (p : Path) (hps : ps.Pairwise fun p q => q.before p = false) :
    (place p ps).Pairwise fun p q => q.before p = false := by
  induction ps with
  | nil => exact List.pairwise_singleton _ _
  | cons q rest ih =>
    obtain ⟨hq, hrest⟩ := List.pairwise_cons.1 hps
    simp only [place]
    split
    · next hqp =>
      refine List.pairwise_cons.2 ⟨fun r hr => ?_, ih hrest⟩
      rcases mem_place.1 hr with rfl | hr
      · have hlt : q.key < r.key := of_decide_eq_true hqp
        exact decide_eq_false (List.lt_asymm hlt)
      · exact hq r hr
    · next hqp =>
      have hqp : q.before p = false := by simpa using hqp
      refine List.pairwise_cons.2 ⟨fun r hr => ?_, hps⟩
      rcases List.mem_cons.1 hr with rfl | hr
      · exact hqp
      · exact before_eq_false_trans hqp (hq r hr)

theorem sorted_pairwise (ps : List Path) : (sorted ps).Pairwise fun p q => q.before p = false := by
  induction ps with
  | nil => exact List.Pairwise.nil
  | cons p rest ih => exact place_pairwise p ih

theorem ascending_sorted (hrel : ∀ p ∈ ps, p.anchor = .relative) (hps : ps.Nodup) :
    Ascending (sorted ps) := by
  have hnodup : (sorted ps).Nodup := (sorted_perm ps).nodup_iff.2 hps
  refine (hnodup.and (sorted_pairwise ps)).imp_of_mem ?_
  rintro p q hp hq ⟨hne, hqp⟩
  have hp := hrel p (mem_sorted.1 hp)
  have hq := hrel q (mem_sorted.1 hq)
  exact before_of_not_before hq hp (Ne.symm hne) hqp

/-- The order in which paths come does not show once they are sorted. -/
theorem sorted_eq_of_perm {qs : List Path} (hperm : ps.Perm qs)
    (hkey : ∀ p ∈ ps, ∀ q ∈ ps, p.key = q.key → p = q) : sorted ps = sorted qs := by
  have hsorted : (sorted ps).Perm (sorted qs) :=
    (sorted_perm ps).trans (hperm.trans (sorted_perm qs).symm)
  refine hsorted.eq_of_pairwise (fun p q hp hq hpq hqp => ?_) (sorted_pairwise ps) (sorted_pairwise qs)
  have hp : p ∈ ps := mem_sorted.1 hp
  have hq : q ∈ ps := hperm.mem_iff.2 (mem_sorted.1 hq)
  exact hkey p hp q hq (List.le_antisymm (List.not_lt.1 (of_decide_eq_false hpq))
    (List.not_lt.1 (of_decide_eq_false hqp)))

end LintRunner.Path
