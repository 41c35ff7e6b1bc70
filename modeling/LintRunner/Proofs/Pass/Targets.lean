import LintRunner.Group
import LintRunner.Proofs.Filter.Invocation
import LintRunner.Proofs.Path.Order
import Mathlib.Data.List.Nodup

/-! The targets of a scope share the files out: each file belongs to one of them, and to no two. -/

namespace LintRunner

open LintRunner.Path

variable {files : List Path} {p : Path}

namespace Group

theorem mem_make {g : Group} :
    g ∈ make files ↔ ∃ p ∈ files, g = ofDirectory files p.parent := by
  simp only [make, List.mem_map, mem_sortedSet]
  constructor
  · rintro ⟨_, ⟨p, hp, rfl⟩, rfl⟩
    exact ⟨p, hp, rfl⟩
  · rintro ⟨p, hp, rfl⟩
    exact ⟨_, ⟨p, hp, rfl⟩, rfl⟩

theorem mem_files_ofDirectory {directory : Path} :
    p ∈ (ofDirectory files directory).files ↔ p ∈ files ∧ p.parent = directory := by
  simp [ofDirectory, mem_sortedSet]

theorem ofDirectory_congr {others : List Path} (hrel : ∀ p ∈ files, p.anchor = .relative)
    (hsame : ∀ p, p ∈ files ↔ p ∈ others) (directory : Path) :
    ofDirectory files directory = ofDirectory others directory := by
  have hmem : ∀ p, p ∈ (ofDirectory files directory).files ↔ p ∈ (ofDirectory others directory).files := by
    simp [mem_files_ofDirectory, hsame]
  have hfiles : (ofDirectory files directory).files = (ofDirectory others directory).files := by
    refine Ascending.eq_of_mem ?_ ?_ hmem
    · exact ascending_sortedSet fun p hp => hrel p (List.mem_filter.1 hp).1
    · exact ascending_sortedSet fun p hp => hrel p ((hsame p).2 (List.mem_filter.1 hp).1)
  rw [ofDirectory, ofDirectory, Group.mk.injEq]
  exact ⟨rfl, hfiles⟩

/-- Neither the order of the files nor how often one comes makes a difference. -/
theorem make_congr {others : List Path} (hrel : ∀ p ∈ files, p.anchor = .relative)
    (hsame : ∀ p, p ∈ files ↔ p ∈ others) : make files = make others := by
  have hparents : sortedSet (files.map (·.parent)) = sortedSet (others.map (·.parent)) := by
    refine Ascending.eq_of_mem (ascending_sortedSet ?_) (ascending_sortedSet ?_) fun q => ?_
    · intro q hq
      obtain ⟨p, hp, rfl⟩ := List.mem_map.1 hq
      exact hrel p hp
    · intro q hq
      obtain ⟨p, hp, rfl⟩ := List.mem_map.1 hq
      exact hrel p ((hsame p).2 hp)
    · simp [mem_sortedSet, hsame]
  rw [make, make, hparents]
  exact List.map_congr_left fun directory _ => ofDirectory_congr hrel hsame directory

end Group

namespace Target

variable {scope : Filter.Scope} {t : Target}

theorem files_subset (ht : t ∈ pathMap scope files (Group.make files)) (hp : p ∈ t.files) :
    p ∈ files := by
  cases scope with
  | root =>
    rw [List.mem_singleton.1 ht] at hp
    exact hp
  | dirs =>
    obtain ⟨g, hg, rfl⟩ := List.mem_map.1 ht
    obtain ⟨q, -, rfl⟩ := Group.mem_make.1 hg
    exact (Group.mem_files_ofDirectory.1 hp).1
  | files =>
    obtain ⟨q, hq, rfl⟩ := List.mem_map.1 ht
    rw [List.mem_singleton.1 hp]
    exact hq

/-- The path of the target that a file belongs to. -/
def pathOf (scope : Filter.Scope) (p : Path) : Path :=
  match scope with
  | .root => .here
  | .dirs => p.parent
  | .files => p

theorem exists_target (scope : Filter.Scope) (hp : p ∈ files) :
    ∃ t ∈ pathMap scope files (Group.make files), p ∈ t.files ∧ t.path = pathOf scope p := by
  cases scope with
  | root => exact ⟨⟨.here, files⟩, by simp [pathMap], hp, rfl⟩
  | dirs =>
    refine ⟨ofGroup (Group.ofDirectory files p.parent), ?_, ?_, rfl⟩
    · exact List.mem_map.2 ⟨_, Group.mem_make.2 ⟨p, hp, rfl⟩, rfl⟩
    · exact Group.mem_files_ofDirectory.2 ⟨hp, rfl⟩
  | files => exact ⟨ofFile p, List.mem_map.2 ⟨p, hp, rfl⟩, by simp [ofFile], rfl⟩

theorem path_eq_pathOf (ht : t ∈ pathMap scope files (Group.make files)) (hp : p ∈ t.files) :
    t.path = pathOf scope p := by
  cases scope with
  | root => rw [List.mem_singleton.1 ht]; rfl
  | dirs =>
    obtain ⟨g, hg, rfl⟩ := List.mem_map.1 ht
    obtain ⟨q, -, rfl⟩ := Group.mem_make.1 hg
    exact (Group.mem_files_ofDirectory.1 hp).2.symm
  | files =>
    obtain ⟨q, hq, rfl⟩ := List.mem_map.1 ht
    rw [List.mem_singleton.1 hp]
    rfl

theorem relative_path (ht : t ∈ pathMap scope files (Group.make files))
    (hrel : ∀ p ∈ files, p.anchor = .relative) : t.path.anchor = .relative := by
  cases scope with
  | root =>
    rw [List.mem_singleton.1 ht]
    rfl
  | dirs =>
    obtain ⟨g, hg, rfl⟩ := List.mem_map.1 ht
    obtain ⟨q, hq, rfl⟩ := Group.mem_make.1 hg
    exact hrel q hq
  | files =>
    obtain ⟨q, hq, rfl⟩ := List.mem_map.1 ht
    exact hrel q hq

theorem ascending_paths (scope : Filter.Scope) (hfiles : Ascending files)
    (hrel : ∀ p ∈ files, p.anchor = .relative) :
    Ascending ((pathMap scope files (Group.make files)).map (·.path)) := by
  cases scope with
  | root => exact List.pairwise_singleton _ _
  | dirs =>
    have hpaths : (pathMap .dirs files (Group.make files)).map (·.path) =
        sortedSet (files.map (·.parent)) := by
      simp [pathMap, Group.make, ofGroup, Group.ofDirectory, Function.comp_def]
    rw [hpaths]
    apply ascending_sortedSet
    intro q hq
    obtain ⟨p, hp, rfl⟩ := List.mem_map.1 hq
    exact hrel p hp
  | files =>
    have hpaths : (pathMap .files files (Group.make files)).map (·.path) = files := by
      simp [pathMap, ofFile, Function.comp_def]
    rw [hpaths]
    exact hfiles

theorem nodup_files (ht : t ∈ pathMap scope files (Group.make files)) (hfiles : files.Nodup)
    (hrel : ∀ p ∈ files, p.anchor = .relative) : t.files.Nodup := by
  cases scope with
  | root =>
    rw [List.mem_singleton.1 ht]
    exact hfiles
  | dirs =>
    obtain ⟨g, hg, rfl⟩ := List.mem_map.1 ht
    obtain ⟨q, -, rfl⟩ := Group.mem_make.1 hg
    exact (ascending_sortedSet fun p hp => hrel p (List.mem_filter.1 hp).1).nodup
  | files =>
    obtain ⟨q, -, rfl⟩ := List.mem_map.1 ht
    exact List.nodup_singleton q

/-- No file belongs to two targets. -/
theorem nodup_flatMap_files (scope : Filter.Scope) (hfiles : Ascending files)
    (hrel : ∀ p ∈ files, p.anchor = .relative) :
    ((pathMap scope files (Group.make files)).flatMap (·.files)).Nodup := by
  refine List.nodup_flatMap.2 ⟨fun t ht => nodup_files ht hfiles.nodup hrel, ?_⟩
  have hpaths := List.pairwise_map.1 (ascending_paths scope hfiles hrel).nodup
  apply hpaths.imp_of_mem
  intro t u ht hu hne
  apply List.disjoint_left.2
  intro p hpt hpu
  apply hne
  rw [path_eq_pathOf ht hpt, path_eq_pathOf hu hpu]

/-- A directory's target has the files of the list that lie in it, as they come in the list. -/
theorem files_eq_filter (hfiles : Ascending files) (hrel : ∀ p ∈ files, p.anchor = .relative)
    (ht : t ∈ pathMap .dirs files (Group.make files)) :
    t.files = files.filter fun p => p.parent = t.path := by
  obtain ⟨g, hg, rfl⟩ := List.mem_map.1 ht
  obtain ⟨q, -, rfl⟩ := Group.mem_make.1 hg
  have hrel' : ∀ p ∈ files.filter (·.parent == q.parent), p.anchor = .relative :=
    fun p hp => hrel p (List.mem_filter.1 hp).1
  refine (ascending_sortedSet hrel').eq_of_mem (hfiles.filter _) fun p => ?_
  rw [mem_sortedSet, List.mem_filter, List.mem_filter, beq_iff_eq, decide_eq_true_iff]
  rfl

/-- The targets for a scope, against the files that they are for. -/
structure SharesOut (scope : Filter.Scope) (files : List Path) (targets : List Target) : Prop where
  distinct : (targets.map (·.path)).Nodup
  ordered : Ascending (targets.map (·.path))
  /-- Each file belongs to just one target. -/
  belongs : ∀ p ∈ files, ∃! t, t ∈ targets ∧ p ∈ t.files
  /-- What the targets hold are the files and nothing else, each once. -/
  holds : (targets.flatMap (·.files)).Perm files
  inside : scope = .dirs → ∀ t ∈ targets, t.files = files.filter fun p => p.parent = t.path

/-- Whatever the scope, its targets share the files out in order. The groups that they are made of depend
only on which files there are. -/
theorem pathMap_sharesOut (scope : Filter.Scope) (hfiles : Ascending files)
    (hrel : ∀ p ∈ files, p.anchor = .relative) :
    SharesOut scope files (pathMap scope files (Group.make files)) ∧
      ∀ given others : List Path, (∀ p ∈ given, p.anchor = .relative) →
        (∀ p, p ∈ given ↔ p ∈ others) → Group.make given = Group.make others := by
  have hordered := ascending_paths scope hfiles hrel
  refine ⟨⟨hordered.nodup, hordered, fun p hp => ?_, ?_, ?_⟩, fun _ _ => Group.make_congr⟩
  · obtain ⟨t, ht, hpt, hpath⟩ := exists_target scope hp
    refine ⟨t, ⟨ht, hpt⟩, ?_⟩
    rintro u ⟨hu, hpu⟩
    exact List.inj_on_of_nodup_map hordered.nodup hu ht ((path_eq_pathOf hu hpu).trans hpath.symm)
  · refine (List.perm_ext_iff_of_nodup (nodup_flatMap_files scope hfiles hrel) hfiles.nodup).2 fun p => ?_
    rw [List.mem_flatMap]
    constructor
    · rintro ⟨t, ht, hp⟩
      exact files_subset ht hp
    · intro hp
      obtain ⟨t, ht, hpt, -⟩ := exists_target scope hp
      exact ⟨t, ht, hpt⟩
  · rintro rfl t ht
    exact files_eq_filter hfiles hrel ht

/-- Files at the top, in directories and further down, where one directory's name begins like another's. -/
def nested : List Path := [⟨.relative, ["a.py"]⟩, ⟨.relative, ["sub", "b.py"]⟩,
  ⟨.relative, ["sub", "deep", "c.py"]⟩, ⟨.relative, ["sub-x", "d.py"]⟩, ⟨.relative, ["sub-x", "e.py"]⟩]

theorem pathMap_sharesOut_nested : Ascending nested ∧ (∀ p ∈ nested, p.anchor = .relative) ∧
    SharesOut .dirs nested (pathMap .dirs nested (Group.make nested)) ∧
    (∀ p, p ∈ nested ↔ p ∈ nested.reverse ++ nested) ∧
    Group.make nested = Group.make (nested.reverse ++ nested) ∧
    (pathMap .dirs nested (Group.make nested)).map (·.files.length) = [1, 1, 1, 2] := by
  have hfiles : nested.Pairwise fun p q => p.before q = true := by decide
  have hrel : ∀ p ∈ nested, p.anchor = .relative := by decide
  have hsame : ∀ p, p ∈ nested ↔ p ∈ nested.reverse ++ nested := by simp
  obtain ⟨hshares, hgroups⟩ := pathMap_sharesOut .dirs hfiles hrel
  exact ⟨hfiles, hrel, hshares, hsame, hgroups _ _ hrel hsame, by decide⟩

end Target

namespace Filter

variable {f : Filter} {scope : Scope} {t : Target}

/-- Where files are named, those of the target that the filter is for are named, each once. -/
theorem perm_itemsFor (hstyle : f.params.pathArgs.namesFiles = true)
    (ht : t ∈ Target.pathMap scope files (Group.make files))
    (hfor : scope = .files → f.covers t.path = true) :
    (f.itemsFor t.path t.files scope).Perm (t.files.filter f.covers) := by
  simp only [itemsFor, hstyle, if_true]
  cases scope with
  | root => exact sorted_perm _
  | dirs => exact sorted_perm _
  | files =>
    obtain ⟨p, -, rfl⟩ := List.mem_map.1 ht
    have hcovers : f.covers p = true := hfor rfl
    simp [Target.ofFile, hcovers]

end Filter

end LintRunner
