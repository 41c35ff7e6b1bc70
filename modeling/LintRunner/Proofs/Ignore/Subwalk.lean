import LintRunner.Proofs.Ignore.Release
import LintRunner.Proofs.Ignore.Walk

/-! A walk of a directory lists all that a walk from the root lists below it, in the same order, and
where patterns reach downward nothing else. The rules in force are the same but for those that the
directory has been released from; what these would ignore below it something after them takes in,
because the walk from the root went through every directory on the way. -/

namespace LintRunner

open Run

variable {σ : Type} {h : Host σ} {w : World σ} {t : FileTree} {here : Location}

theorem Run.gives_findM? {α : Type} (f : α → Run σ Bool) (as : List α) :
    Gives h (fun found => ∀ a, found = some a → a ∈ as) (as.findM? f) := by
  induction as with
  | nil => exact gives_pure (by simp)
  | cons a as ih =>
    rw [List.findM?]
    refine .after _ fun b => ?_
    cases b with
    | true => exact gives_pure (by simp)
    | false => exact fun w found hfound b hb => List.mem_cons_of_mem _ (ih w found hfound b hb)

namespace Walker

open IgnoreFile

variable {v : Walker} {root : Path} {above names more way : List String} {last name : String}
  {f : IgnoreFile} {p : Path} {isDirectory : Bool}

/-- The root lies at or below the directory from which on rules count. -/
def Placed (v : Walker) : Prop := ∃ names, v.root = v.top.down names

theorem gives_start (root : Path) :
    Gives h (fun v => v.root = root ∧ v.Placed) (Walker.start root) := by
  refine Gives.bind (gives_findM? _ _) fun found hfound => gives_pure ⟨rfl, ?_⟩
  cases found with
  | none => exact ⟨[], by simp [top]⟩
  | some git =>
    rcases List.mem_cons.1 (hfound git rfl) with rfl | hgit
    · exact ⟨[], by simp [top]⟩
    · obtain ⟨names, -, rfl⟩ := Path.mem_parents.1 hgit
      exact ⟨names, by simp [top]⟩

theorem directory_of_mem_excludes (hf : f ∈ v.excludes t here) : f.directory = v.top := by
  unfold excludes at hf
  split at hf
  · next git hgit =>
    rw [directory_of_mem_rulesAt? (Option.mem_toList.1 hf), top, hgit]
    rfl
  · cases hf

theorem directory_of_mem_own_steps {d : Path}
    (hf : f ∈ (steps d names).flatMap (v.own t here)) :
    ∃ front back, names = front ++ back ∧ f.directory = d.down front := by
  obtain ⟨e, he, hf⟩ := List.mem_flatMap.1 hf
  obtain ⟨front, back, hnames, rfl⟩ := mem_steps.1 he
  exact ⟨front, back, hnames, directory_of_mem_own hf⟩

/-- Every file of rules that is inherited stands in a directory above. -/
theorem directory_of_mem_inheritedBy (hv : v.Placed) (hf : f ∈ v.inheritedBy t here v.root) :
    ∃ way, v.root = f.directory.down way := by
  rcases List.mem_append.1 hf with hf | hf
  · rw [directory_of_mem_excludes hf]
    exact hv
  · split at hf
    · next below hbelow =>
      obtain ⟨front, back, hparts, hdir⟩ := directory_of_mem_own_steps hf
      obtain ⟨names, hroot⟩ := v.root.exists_eq_parent_down
      obtain ⟨-, hparent⟩ := Path.relativeTo?_eq_some_iff_down.1 hbelow
      refine ⟨back ++ names, ?_⟩
      rw [hdir, hroot, hparent, hparts]
      simp
    · cases hf

theorem directory_of_mem_inForce (hv : v.Placed) (hf : f ∈ v.inForce t here v.root names) :
    ∃ way, v.root.down names = f.directory.down way := by
  rcases List.mem_append.1 hf with hf | hf
  · obtain ⟨g, hg, rfl⟩ := List.mem_map.1 hf
    obtain ⟨way, hway⟩ := directory_of_mem_inheritedBy hv hg
    refine ⟨way ++ names, ?_⟩
    rw [hway]
    simp [released]
  · obtain ⟨front, back, rfl, hdir⟩ := directory_of_mem_own_steps hf
    exact ⟨back, by simp [hdir]⟩

theorem inheritedBy_of_parent {base : Path} (hparent : base.parent = v.top.down names) :
    v.inheritedBy t here base =
      v.excludes t here ++ (steps v.top names).flatMap (v.own t here) := by
  simp [inheritedBy, hparent]

theorem exists_own_steps (v : Walker) (t : FileTree) (here : Location) (d : Path)
    (names : List String) :
    ∃ rest, (steps d names).flatMap (v.own t here) = v.own t here d ++ rest := by
  cases names with
  | nil => exact ⟨[], by simp [steps]⟩
  | cons name names => exact ⟨_, by rw [steps, List.flatMap_cons]⟩

/-- What a directory below the root inherits: what the root inherits, and then the rules on the way.
Where the root is the top of all paths, it counts as its own parent. -/
theorem inheritedBy_down (hv : v.Placed) (t : FileTree) (here : Location) (above : List String)
    (last : String) :
    v.inheritedBy t here (v.root.down (above ++ [last])) =
        v.inheritedBy t here v.root ++ (steps v.root above).flatMap (v.own t here) ∨
      ∃ lower rest, v.inheritedBy t here v.root = lower ++ v.own t here v.root ∧
        (steps v.root above).flatMap (v.own t here) = v.own t here v.root ++ rest ∧
        v.inheritedBy t here (v.root.down (above ++ [last])) =
          lower ++ v.own t here v.root ++ rest := by
  obtain ⟨names, hroot⟩ := hv
  have hparent : (v.root.down (above ++ [last])).parent = v.top.down (names ++ above) := by
    rw [← Path.child_down, Path.parent_child, hroot, Path.down_down]
  rw [inheritedBy_of_parent hparent]
  rcases List.eq_nil_or_concat names with rfl | ⟨front, name, rfl⟩
  · rw [Path.down_nil] at hroot
    rw [List.nil_append, ← hroot]
    cases hbelow : v.root.parent.relativeTo? v.top with
    | none => exact .inl (by simp [inheritedBy, hbelow])
    | some below =>
      -- only what has no parent lies below itself
      obtain ⟨-, heq⟩ := Path.relativeTo?_eq_some_iff_down.1 hbelow
      have hself : v.root.parent = v.top.down [] := by
        have hlen := congrArg (fun q : Path => q.parts.length) heq
        simp only [Path.parent, ← hroot, Path.down_parts, List.length_dropLast,
          List.length_append] at hlen
        rw [heq, List.length_eq_zero_iff.1 (by omega : below.parts.length = 0)]
      obtain ⟨rest, hrest⟩ := v.exists_own_steps t here v.root above
      refine .inr ⟨v.excludes t here, rest, ?_, hrest, by rw [hrest, List.append_assoc]⟩
      rw [inheritedBy_of_parent hself, ← hroot]
      simp [steps]
  · left
    have htop : v.root.parent = v.top.down front := by
      rw [hroot, List.concat_eq_append, ← Path.child_down, Path.parent_child]
    rw [inheritedBy_of_parent htop, List.append_assoc, ← List.flatMap_append, List.concat_eq_append,
      List.append_assoc, List.singleton_append, steps_append, ← List.concat_eq_append, ← hroot]

/-- As far as rules say anything, a directory inherits what is in force above it. -/
theorem spoken_inheritedBy (hv : v.Placed) :
    spoken p ((v.inheritedBy t here (v.root.down (above ++ [last]))).map
        (·.released (v.root.down (above ++ [last])))) isDirectory =
      spoken p ((v.inForce t here v.root above).map (·.released (v.root.down (above ++ [last]))))
        isDirectory := by
  have hreleased : (v.inForce t here v.root above).map (·.released (v.root.down (above ++ [last]))) =
      (v.inheritedBy t here v.root ++ (steps v.root above).flatMap (v.own t here)).map
        (·.released (v.root.down (above ++ [last]))) := by
    simp [inForce, Function.comp_def, released_released]
  rw [hreleased]
  rcases inheritedBy_down hv t here above last with heq | ⟨lower, rest, hroot, hsteps, heq⟩
  · rw [heq]
  · rw [heq, hroot, hsteps]
    simp only [List.map_append, ← List.append_assoc]
    exact (spoken_twice _).symm

theorem isIgnored_inForce_down (hv : v.Placed) :
    isIgnored p (v.inForce t here (v.root.down (above ++ [last])) more) isDirectory =
      (spoken p ((steps (v.root.down (above ++ [last])) more).flatMap (v.own t here))
        isDirectory).getD (isIgnored p ((v.inForce t here v.root above).map
          (·.released (v.root.down (above ++ [last])))) isDirectory) := by
  rw [inForce, isIgnored_append, isIgnored_eq_spoken, spoken_inheritedBy hv, ← isIgnored_eq_spoken]

/-- Nothing is ignored in a directory that would not be ignored in a walk from the root. -/
theorem isIgnored_down (hv : v.Placed)
    (hp : isIgnored p (v.inForce t here v.root (above ++ last :: more)) isDirectory = false) :
    isIgnored p (v.inForce t here (v.root.down (above ++ [last])) more) isDirectory = false := by
  rw [inForce_append, isIgnored_append] at hp
  rw [isIgnored_inForce_down hv]
  cases hspoken : spoken p ((steps (v.root.down (above ++ [last])) more).flatMap (v.own t here))
      isDirectory with
  | some b => rwa [hspoken] at hp
  | none =>
    rw [hspoken] at hp
    exact isIgnored_released hp

/-- A pattern of a rule in force, dropped for a directory below the root, ignores one on the way. -/
theorem exists_ignored_of_dropped {q : Pattern} (hf : f ∈ v.inForce t here v.root above)
    (hq : q ∈ f.patterns) (hdrop : f.keeps (v.root.down (above ++ [last])) q = false) :
    q.positive = true ∧ ∃ way name rest names, above ++ [last] = way ++ name :: rest ∧ names ≠ [] ∧
      v.root.down (way ++ [name]) = f.directory.down names ∧
      q.covers (subject ⟨.relative, names⟩ true) = true := by
  obtain ⟨hpos, names, rest, hne, heq, hcovers⟩ := keeps_eq_false_iff.1 hdrop
  refine ⟨hpos, ?_⟩
  suffices ∃ way, way ≠ [] ∧ above ++ [last] = way ++ rest ∧
      v.root.down way = f.directory.down names by
    obtain ⟨way, hway, hrest, hdown⟩ := this
    obtain ⟨front, name, rfl⟩ := (List.eq_nil_or_concat way).resolve_left hway
    rw [List.concat_eq_append] at hrest hdown
    exact ⟨front, name, rest, names, by simpa using hrest, hne, hdown, hcovers⟩
  rcases List.mem_append.1 hf with hf | hf
  · obtain ⟨g, -, rfl⟩ := List.mem_map.1 hf
    -- what ignores the root or a directory above it was dropped before
    have hkeeps : g.keeps v.root q = true := (List.mem_filter.1 hq).2
    have hnot (between : List String) (hroot : v.root = g.directory.down (names ++ between)) : False := by
      rw [keeps_eq_false_iff.2 ⟨hpos, names, between, hne, hroot, hcovers⟩] at hkeeps
      cases hkeeps
    have hdown : v.root.down (above ++ [last]) = (g.directory.down names).down rest := by
      rw [heq, Path.down_down]
      rfl
    rcases Path.down_eq_down hdown with ⟨way, hway, hrest⟩ | ⟨between, hroot, -⟩
    · refine ⟨way, ?_, hrest, hway.symm⟩
      rintro rfl
      exact hnot [] (by simpa using hway.symm)
    · exact absurd (hroot.trans (Path.down_down _ _ _)) (hnot between)
  · obtain ⟨front, back, -, hdir⟩ := directory_of_mem_own_steps hf
    rw [hdir, Path.down_down] at heq
    refine ⟨front ++ names, by simp [hne], ?_, by rw [hdir, Path.down_down]⟩
    simpa using Path.down_injective _ heq

theorem exists_inForce_append (v : Walker) (t : FileTree) (here : Location) {rest : List String}
    (hway : above ++ [last] = way ++ name :: rest) :
    ∃ deeper, v.inForce t here v.root above = v.inForce t here v.root way ++ deeper ∧
      ∀ g ∈ deeper, ∃ front, g.directory = v.root.down (way ++ name :: front) := by
  rcases List.eq_nil_or_concat rest with rfl | ⟨rest, last', rfl⟩
  · obtain ⟨rfl, -⟩ := List.append_inj' hway rfl
    exact ⟨[], by simp, by simp⟩
  · rw [List.concat_eq_append, ← List.cons_append, ← List.append_assoc] at hway
    obtain ⟨rfl, -⟩ := List.append_inj' hway rfl
    refine ⟨_, inForce_append v t here v.root way name rest, ?_⟩
    intro g hg
    obtain ⟨front, back, -, hdir⟩ := directory_of_mem_own_steps hg
    exact ⟨front, by rw [hdir]; simp⟩

theorem exists_split_of_not_mem {α : Type} {a : α} {front back lower higher : List α}
    (heq : lower ++ a :: higher = front ++ back) (ha : a ∉ back) :
    ∃ between, front = lower ++ a :: between ∧ higher = between ++ back := by
  rcases List.append_eq_append_iff.1 heq with ⟨between, rfl, hrest⟩ | ⟨between, rfl, rfl⟩
  · cases between with
    | nil => exact absurd (by rw [← List.nil_append back, ← hrest]; simp) ha
    | cons b between =>
      obtain ⟨rfl, rfl⟩ := List.cons_eq_cons.1 hrest
      exact ⟨between, rfl, rfl⟩
  · exact absurd (by simp) ha

/-- A file of rules that stands above a directory is in force there already. -/
theorem exists_inForce_split {lower higher : List IgnoreFile} {rest ignored : List String}
    (hway : above ++ [last] = way ++ name :: rest)
    (hdown : v.root.down (way ++ [name]) = f.directory.down ignored) (hne : ignored ≠ [])
    (hrules : v.inForce t here v.root above = lower ++ f :: higher) :
    ∃ between deeper, v.inForce t here v.root way = lower ++ f :: between ∧
      higher = between ++ deeper := by
  obtain ⟨deeper, hdeeper, hdirs⟩ := exists_inForce_append v t here hway
  -- the rules of that directory, and of those below it, stand too deep to be `f`
  have hnotdeep : f ∉ deeper := by
    intro hmem
    obtain ⟨front, hdir⟩ := hdirs f hmem
    have hlen := congrArg (fun p : Path => p.parts.length) hdown
    have hpos := List.length_pos_iff.2 hne
    simp only [hdir, Path.down_parts, List.length_append, List.length_cons, List.length_nil] at hlen
    omega
  obtain ⟨between, hfront, hback⟩ := exists_split_of_not_mem (hrules.symm.trans hdeeper) hnotdeep
  exact ⟨between, deeper, hfront, hback⟩

/-- A pattern in force that ignores a directory which the walk goes into is overruled for all that
lies below it. -/
theorem exists_overruled {lower higher : List IgnoreFile} {earlier later : List Pattern} {q : Pattern}
    {ignored : List String} (hv : v.Placed) (hgo : v.GoesInto t here v.root way name)
    (hclosed : ∀ g ∈ v.inForce t here v.root way, ∀ q ∈ g.patterns, q.DownwardClosed)
    (hrules : v.inForce t here v.root way = lower ++ f :: higher)
    (hpatterns : f.patterns = earlier ++ q :: later) (hpos : q.positive = true)
    (hdown : v.root.down (way ++ [name]) = f.directory.down ignored) (hne : ignored ≠ [])
    (hcovers : q.covers (subject ⟨.relative, ignored⟩ true) = true) (hmore : more ≠ [])
    (hentry : ∀ name ∈ more, FileTree.IsEntryName name) :
    ∃ g ∈ f.keeping later :: higher,
      g.decide (v.root.down (way ++ [name] ++ more)) isDirectory ≠ none := by
  have hkept := hgo.kept
  rw [hdown, hrules] at hkept
  have hafter : ∀ g ∈ f :: higher, ∀ q ∈ g.patterns, q.DownwardClosed := by
    intro g hg
    refine hclosed g ?_
    rw [hrules]
    exact List.mem_append_right _ hg
  have hdirectories : ∀ g ∈ higher, ∃ way, way ≠ [] ∧
      f.directory.down ignored = g.directory.down way := by
    intro g hg
    have hin : g ∈ v.inForce t here v.root way := by
      rw [hrules]
      exact List.mem_append_right _ (List.mem_cons_of_mem _ hg)
    obtain ⟨names, hnames⟩ := directory_of_mem_inForce hv hin
    refine ⟨names ++ [name], by simp, ?_⟩
    rw [← hdown, ← Path.down_down, hnames, Path.down_down]
  rw [← Path.down_down, hdown]
  exact exists_speaks_after hpatterns hpos hcovers hne hkept hafter hdirectories hmore hentry

/-- Where patterns reach downward, a directory that a walk from the root goes through ignores nothing
less below it. -/
theorem isIgnored_of_down (hv : v.Placed)
    (hclosed : ∀ f ∈ v.inForce t here v.root above, ∀ q ∈ f.patterns, q.DownwardClosed)
    (hreach : v.Reaches t here v.root [] (above ++ [last])) (hnames : names ≠ [])
    (hentry : ∀ name ∈ above ++ [last] ++ names, FileTree.IsEntryName name)
    (hp : isIgnored (v.root.down (above ++ [last] ++ names))
      ((v.inForce t here v.root above).map (·.released (v.root.down (above ++ [last])))) isDirectory =
        false) :
    isIgnored (v.root.down (above ++ [last] ++ names)) (v.inForce t here v.root above) isDirectory =
      false := by
  by_contra hignored
  rw [Bool.not_eq_false] at hignored
  obtain ⟨lower, f, higher, earlier, q, later, hrules, hpatterns, hdrop, hsilent⟩ :=
    exists_dropped hignored hp
  have hf : f ∈ v.inForce t here v.root above := by simp [hrules]
  obtain ⟨hpos, way, name, rest, ignored, hway, hne, hdown, hcovers⟩ :=
    exists_ignored_of_dropped hf (by simp [hpatterns]) hdrop
  obtain ⟨between, deeper, hfront, rfl⟩ := exists_inForce_split hway hdown hne hrules
  have hgo : v.GoesInto t here v.root way name := by
    rw [hway] at hreach
    simpa using (reaches_append.1 hreach).2.1
  have hclosedThere : ∀ g ∈ v.inForce t here v.root way, ∀ q ∈ g.patterns, q.DownwardClosed := by
    intro g hg
    refine hclosed g ?_
    rw [hfront] at hg
    rw [hrules, ← List.cons_append, ← List.append_assoc]
    exact List.mem_append_left _ hg
  have hsame : above ++ [last] ++ names = way ++ [name] ++ (rest ++ names) := by simp [hway]
  obtain ⟨g, hg, hspeaks⟩ := exists_overruled hv hgo hclosedThere hfront hpatterns hpos hdown hne
    hcovers (List.append_ne_nil_of_right_ne_nil rest hnames)
    (fun n hn => hentry n (hsame ▸ List.mem_append_right _ hn))
  rw [← hsame] at hspeaks
  refine hspeaks (hsilent g ?_)
  rcases List.mem_cons.1 hg with rfl | hg
  · exact List.mem_cons_self
  · exact List.mem_cons_of_mem _ (List.mem_append_left _ hg)

/-- What is in force above a directory is inherited by it, if not released. -/
theorem closed_of_mem_inForce (hv : v.Placed)
    (hclosed : ∀ f ∈ v.inheritedBy t here (v.root.down (above ++ [last])),
      ∀ q ∈ f.patterns, q.DownwardClosed) :
    ∀ f ∈ v.inForce t here v.root above, ∀ q ∈ f.patterns, q.DownwardClosed := by
  have hinherits : ∀ f, f ∈ v.inheritedBy t here v.root ∨
      f ∈ (steps v.root above).flatMap (v.own t here) →
      f ∈ v.inheritedBy t here (v.root.down (above ++ [last])) := by
    intro f hf
    rcases inheritedBy_down hv t here above last with heq | ⟨lower, rest, hroot, hsteps, heq⟩
    · rw [heq]
      exact List.mem_append.2 hf
    · rw [hroot, hsteps] at hf
      rw [heq]
      simp only [List.mem_append] at hf ⊢
      tauto
  intro f hf q hq
  rcases List.mem_append.1 hf with hf | hf
  · obtain ⟨g, hg, rfl⟩ := List.mem_map.1 hf
    exact hclosed g (hinherits g (.inl hg)) q (List.mem_of_mem_filter hq)
  · exact hclosed f (hinherits f (.inr hf)) q hq

theorem goesInto_down (hv : v.Placed)
    (hgo : v.GoesInto t here v.root (above ++ last :: names) name) :
    v.GoesInto t here (v.root.down (above ++ [last])) names name :=
  ⟨by simpa using hgo.directory, hgo.control, isIgnored_down hv (by simpa using hgo.kept)⟩

theorem listsIn_down (hv : v.Placed)
    (hlists : v.ListsIn t here v.root (above ++ last :: names) name) :
    v.ListsIn t here (v.root.down (above ++ [last])) names name :=
  ⟨by simpa using hlists.entry, by simpa using hlists.file, isIgnored_down hv (by simpa using hlists.kept)⟩

theorem reaches_down (hv : v.Placed)
    (hreaches : v.Reaches t here v.root (above ++ last :: names) more) :
    v.Reaches t here (v.root.down (above ++ [last])) names more := by
  induction more generalizing names with
  | nil => trivial
  | cons name more ih => exact ⟨goesInto_down hv hreaches.1, ih (by simpa using hreaches.2)⟩

/-- What lies below a directory and is listed from the root is listed from the directory. -/
theorem lists_down (hv : v.Placed) (hp : v.Lists t here v.root p)
    (hbelow : v.root.down (above ++ [last]) ∈ p.parents) :
    v.Lists t here (v.root.down (above ++ [last])) p := by
  obtain ⟨names, name, rfl, hreaches, hlists⟩ := hp
  obtain ⟨way, hway, heq⟩ := Path.mem_parents.1 hbelow
  obtain ⟨more, last', rfl⟩ := (List.eq_nil_or_concat way).resolve_left hway
  rw [Path.down_down, List.concat_eq_append, ← List.append_assoc] at heq
  obtain ⟨rfl, hlast⟩ := List.append_inj' (Path.down_injective _ heq) rfl
  cases hlast
  refine ⟨more, name, by simp, reaches_down hv (reaches_append.1 hreaches).2, listsIn_down hv ?_⟩
  simpa using hlists

section Closed

variable (hv : v.Placed)
  (hclosed : ∀ f ∈ v.inheritedBy t here (v.root.down (above ++ [last])),
    ∀ q ∈ f.patterns, q.DownwardClosed)
  (hreach : v.Reaches t here v.root [] (above ++ [last])) (ht : t.Sound)

include hv hclosed hreach ht

theorem isIgnored_up (hnames : names ≠ []) (hentry : ∀ name ∈ names, FileTree.IsEntryName name)
    (hp : isIgnored ((v.root.down (above ++ [last])).down names)
      (v.inForce t here (v.root.down (above ++ [last])) more) isDirectory = false) :
    isIgnored ((v.root.down (above ++ [last])).down names)
      (v.inForce t here v.root (above ++ last :: more)) isDirectory = false := by
  rw [isIgnored_inForce_down hv] at hp
  rw [inForce_append, isIgnored_append]
  cases hspoken : spoken ((v.root.down (above ++ [last])).down names)
      ((steps (v.root.down (above ++ [last])) more).flatMap (v.own t here)) isDirectory with
  | some b => rwa [hspoken] at hp
  | none =>
    rw [hspoken] at hp
    have hentries : ∀ name ∈ above ++ [last] ++ names, FileTree.IsEntryName name := by
      intro name hname
      rcases List.mem_append.1 hname with hname | hname
      · exact isEntryName_of_reaches ht hreach name hname
      · exact hentry name hname
    rw [Path.down_down] at hp ⊢
    exact isIgnored_of_down hv (closed_of_mem_inForce hv hclosed) hreach hnames hentries hp

theorem isIgnored_child_up (hnames : ∀ name ∈ names, FileTree.IsEntryName name)
    (hname : FileTree.IsEntryName name)
    (hp : isIgnored ((v.root.down (above ++ [last])).down (names ++ [name]))
      (v.inForce t here (v.root.down (above ++ [last])) names) isDirectory = false) :
    isIgnored (v.root.down (above ++ last :: names ++ [name]))
      (v.inForce t here v.root (above ++ last :: names)) isDirectory = false := by
  have hentry : ∀ n ∈ names ++ [name], FileTree.IsEntryName n := by
    intro n hn
    rcases List.mem_append.1 hn with hn | hn
    · exact hnames n hn
    · rwa [List.mem_singleton.1 hn]
  simpa using isIgnored_up hv hclosed hreach ht (by simp) hentry hp

theorem reaches_up (hnames : ∀ name ∈ names, FileTree.IsEntryName name)
    (hreaches : v.Reaches t here (v.root.down (above ++ [last])) names more) :
    v.Reaches t here v.root (above ++ last :: names) more := by
  induction more generalizing names with
  | nil => trivial
  | cons name more ih =>
    obtain ⟨hgo, hmore⟩ := hreaches
    obtain ⟨l, -, he⟩ := hgo.directory
    have hname : FileTree.IsEntryName name := ht.isEntryName he
    have hlonger : ∀ n ∈ names ++ [name], FileTree.IsEntryName n := by
      simpa [or_imp, forall_and] using ⟨hnames, hname⟩
    refine ⟨⟨by simpa using hgo.directory, hgo.control, ?_⟩, by simpa using ih hlonger hmore⟩
    exact isIgnored_child_up hv hclosed hreach ht hnames hname hgo.kept

/-- Where patterns reach downward, no other file is listed from the directory. -/
theorem lists_up (hp : v.Lists t here (v.root.down (above ++ [last])) p) :
    v.Lists t here v.root p ∧ v.root.down (above ++ [last]) ∈ p.parents := by
  obtain ⟨names, name, rfl, hreaches, hlists⟩ := hp
  have hnames := isEntryName_of_reaches ht hreaches
  have hname : FileTree.IsEntryName name := by
    obtain ⟨e, l, -, he⟩ := hlists.entry
    exact ht.isEntryName he
  refine ⟨⟨above ++ last :: names, name, by simp, ?_, ?_⟩,
    Path.mem_parents.2 ⟨names ++ [name], by simp, rfl⟩⟩
  · have hup := reaches_up hv hclosed hreach ht (by simp) hreaches
    simpa using reaches_append.2 ⟨hreach, by simpa using hup⟩
  · exact ⟨by simpa using hlists.entry, by simpa using hlists.file,
      isIgnored_child_up hv hclosed hreach ht hnames hname hlists.kept⟩

end Closed

theorem eq_of_sorted {base : Path} {xs ys : List Path} (hxs : xs.Pairwise (Precedes base))
    (hys : ys.Pairwise (Precedes base)) (hmem : ∀ p, p ∈ xs ↔ p ∈ ys) : xs = ys := by
  have hperm : xs.Perm ys :=
    (List.perm_ext_iff_of_nodup (nodup_of_sorted hxs) (nodup_of_sorted hys)).2 hmem
  exact hperm.eq_of_pairwise (fun p q _ _ hpq hqp => absurd hqp hpq.asymm) hxs hys

theorem sublist_of_sorted {base : Path} {xs ys : List Path} (hxs : xs.Pairwise (Precedes base))
    (hys : ys.Pairwise (Precedes base)) (hsub : ∀ p ∈ xs, p ∈ ys) : xs.Sublist ys := by
  have hfilter : xs = ys.filter (· ∈ xs) :=
    eq_of_sorted hxs (hys.filter _) fun p => by simpa using hsub p
  rw [hfilter]
  exact List.filter_sublist

/-- Below a directory its own order and that of a walk from above are the same. -/
theorem precedes_down {base p q : Path} (hp : base.down names ∈ p.parents)
    (hq : base.down names ∈ q.parents) (hpq : Precedes base p q) : Precedes (base.down names) p q := by
  obtain ⟨x, hx, rfl⟩ := Path.mem_parents.1 hp
  obtain ⟨y, hy, rfl⟩ := Path.mem_parents.1 hq
  obtain ⟨x', y', hx', hy', hsooner⟩ := hpq
  rw [Path.down_down] at hx' hy'
  rw [← Path.down_injective base hx', ← Path.down_injective base hy'] at hsooner
  exact ⟨x, y, rfl, rfl, (sooner_append names hx hy).1 hsooner⟩

/-- Below a directory that a walk from the root goes through, it lists a part of what a walk of that
directory lists, in the same order; and all of it, where every pattern that the directory inherits
matches what lies below the directories it matches. -/
theorem subwalk_agrees (hv : ((Walker.start root).go h w).1 = .ok v) (ht : w.tree.Sound)
    (hroot : w.tree.isDirectory? h.cwd root = .ok true) (hloads : v.Loads w.tree h.cwd)
    (hreach : v.Reaches w.tree h.cwd root [] names) :
    ∃ whole part, Finds h w.tree (v.walk root) whole ∧
      Finds h w.tree (v.walk (root.down names)) part ∧
      (whole.filter fun p => root.down names ∈ p.parents).Sublist part ∧
      ((∀ f ∈ v.inheritedBy w.tree h.cwd (root.down names), ∀ q ∈ f.patterns, q.DownwardClosed) →
        part = whole.filter fun p => root.down names ∈ p.parents) := by
  obtain ⟨rfl, hplaced⟩ := gives_start root w v hv
  obtain ⟨l, hl⟩ := FileTree.isDirectory?_eq_true_iff.1 hroot
  have hdir : w.tree.isDirectory? h.cwd (v.root.down names) = .ok true := by
    have hway := status_of_reaches ht (by simpa using hl) hreach
    exact FileTree.isDirectory?_eq_true_iff.2 ⟨_, by simpa using hway⟩
  refine ⟨v.walked w.tree h.cwd v.root, v.walked w.tree h.cwd (v.root.down names),
    finds_walk hloads hroot, finds_walk hloads hdir, ?_⟩
  have hsorted : (v.walked w.tree h.cwd (v.root.down names)).Pairwise
      (Precedes (v.root.down names)) := walked_sorted ht
  have hbelow : ((v.walked w.tree h.cwd v.root).filter fun p => v.root.down names ∈ p.parents).Pairwise
      (Precedes (v.root.down names)) := by
    refine List.Pairwise.imp_of_mem ?_ ((walked_sorted ht).filter _)
    intro p q hp hq hpq
    simp only [List.mem_filter, decide_eq_true_eq] at hp hq
    exact precedes_down hp.2 hq.2 hpq
  have hdown : ∀ p ∈ (v.walked w.tree h.cwd v.root).filter fun p => v.root.down names ∈ p.parents,
      p ∈ v.walked w.tree h.cwd (v.root.down names) := by
    intro p hp
    simp only [List.mem_filter, decide_eq_true_eq, mem_walked ht] at hp
    rw [mem_walked ht]
    rcases List.eq_nil_or_concat names with rfl | ⟨above, last, rfl⟩
    · simpa using hp.1
    · rw [List.concat_eq_append] at hp ⊢
      exact lists_down hplaced hp.1 hp.2
  refine ⟨sublist_of_sorted hbelow hsorted hdown, fun hclosed =>
    eq_of_sorted hsorted hbelow fun p => ⟨fun hp => ?_, hdown p⟩⟩
  simp only [List.mem_filter, decide_eq_true_eq, mem_walked ht]
  rw [mem_walked ht] at hp
  rcases List.eq_nil_or_concat names with rfl | ⟨above, last, rfl⟩
  · rw [Path.down_nil] at hp ⊢
    have hlists := hp
    obtain ⟨way, name, rfl, -⟩ := hp
    exact ⟨hlists, Path.mem_parents.2 ⟨_, by simp, rfl⟩⟩
  · rw [List.concat_eq_append] at *
    exact lists_up hplaced hclosed hreach ht hp

end Walker

theorem Regex.isSome_run_set (set : CharSet) (c : Cursor) {k : Cursor → Option Cursor}
    (hk : ∀ d, (k d).isSome = true) :
    ((Regex.set .none set).run c k).isSome = c.after.head?.any (set.contains .none) := by
  cases hc : c.after with
  | nil => simp [run, Cursor.step?, hc]
  | cons x after => cases hx : set.contains .none x <;> simp [run, Cursor.step?, hc, hx, hk]

/-- What looks at the next character alone is found where there is one that it is for. -/
theorem Regex.searchFrom_isSome {r : Regex} {hit : Char → Bool}
    (hr : ∀ c : Cursor, (r.run c some).isSome = c.after.head?.any hit) (before text : List Char) :
    (r.searchFrom before text).isSome = text.any hit := by
  induction text generalizing before with
  | nil => simpa [searchFrom] using hr ⟨before, [], []⟩
  | cons c text ih => simp [searchFrom, Option.isSome_or, hr, ih]

theorem IgnoreFile.slash_mem_subject {above below : List String} (habove : above ≠ [])
    (hbelow : below ≠ []) (isDirectory : Bool) :
    '/' ∈ subject ⟨.relative, above ++ below⟩ isDirectory := by
  obtain ⟨a, above, rfl⟩ := List.exists_cons_of_ne_nil habove
  obtain ⟨b, rest, hrest⟩ := List.exists_cons_of_ne_nil (List.append_ne_nil_of_right_ne_nil above hbelow)
  have hslash : "/".toList = ['/'] := rfl
  simp [subject, Path.text, Anchor.text, hrest, String.intercalate_cons_cons, hslash]

/-- A pattern that matches whatever holds a slash reaches downward. -/
theorem Pattern.downwardClosed_of_slash {q : Pattern}
    (hq : ∀ text, '/' ∈ text → q.covers text = true) : q.DownwardClosed :=
  fun _ _ isDirectory habove hbelow _ _ =>
    hq _ (IgnoreFile.slash_mem_subject habove hbelow isDirectory)

namespace Sample

def thicket : FileTree := ⟨[(["p"], .directory), (["p", ".ignore"], .file "*\n!*/\n".toUTF8 false),
  (["p", "a.py"], .file .empty false), (["p", "sub"], .directory),
  (["p", "sub", ".ignore"], .file "*.log\n".toUTF8 false), (["p", "sub", "b.py"], .file .empty false),
  (["p", "sub", "x.log"], .file .empty false), (["p", "sub", "deep"], .directory),
  (["p", "sub", "deep", "c.py"], .file .empty false)]⟩

def thicketRoot : Path := ⟨.root, ["p"]⟩

def thicketWorld : World Script := ⟨thicket, {}, [], {}, .warning⟩

theorem closed_thicket : ∀ f ∈ Walker.inheritedBy ⟨thicketRoot, none⟩ thicket []
    (thicketRoot.down ["sub"]), ∀ q ∈ f.patterns, q.DownwardClosed := by
  have hfile : thicket.status [] (thicketRoot.child ".ignore") =
      .ok (["p", ".ignore"], .file "*\n!*/\n".toUTF8 false) := by decide +kernel
  have hlines : IgnoreFile.textOf "*\n!*/\n".toUTF8 = ["*", "!*/"] := by decide +kernel
  have hpatterns : IgnoreFile.patternsOf ["*", "!*/"] =
      [⟨"*", true, some .dot⟩, ⟨"!*/", false, some Pattern.directorySlash⟩] := rfl
  intro f hf q hq
  have hrules : IgnoreFile.rulesAt? thicket [] (thicketRoot.child ".ignore") thicketRoot =
      some ⟨thicketRoot, thicketRoot.child ".ignore", IgnoreFile.patternsOf ["*", "!*/"]⟩ := by
    rw [IgnoreFile.rulesAt?, hfile]
    dsimp only
    rw [hlines, hpatterns]
    rfl
  have hinherits : Walker.inheritedBy ⟨thicketRoot, none⟩ thicket [] (thicketRoot.down ["sub"]) =
      [⟨thicketRoot, thicketRoot.child ".ignore", IgnoreFile.patternsOf ["*", "!*/"]⟩] := by
    have hparent : (thicketRoot.down ["sub"]).parent =
        (Walker.top ⟨thicketRoot, none⟩).down [] := by decide
    rw [Walker.inheritedBy_of_parent hparent]
    simp [Walker.excludes, Walker.steps, Walker.own, Walker.top, hrules]
  rw [hinherits, List.mem_singleton] at hf
  rw [hf, hpatterns] at hq
  refine Pattern.downwardClosed_of_slash fun text htext => ?_
  simp only [List.mem_cons, List.not_mem_nil, or_false] at hq
  rcases hq with rfl | rfl
  · change (Regex.dot.search text).isSome = true
    have hdot := Regex.searchFrom_isSome (r := .dot) (Regex.isSome_run_set _ · fun _ => rfl) [] text
    exact hdot.trans (List.any_eq_true.2 ⟨'/', htext, by decide⟩)
  · change (Pattern.directorySlash.search text).isSome = true
    have hslash := Regex.searchFrom_isSome (r := Pattern.directorySlash)
      (Regex.isSome_run_set _ · fun _ => rfl) [] text
    exact hslash.trans (List.any_eq_true.2 ⟨'/', htext, by decide⟩)

end Sample

namespace Walker

open Sample in
theorem subwalk_agrees_thicket :
    ((Walker.start thicketRoot).go (Script.host [] [] false false) thicketWorld).1 =
      .ok ⟨thicketRoot, none⟩ ∧ thicket.Sound ∧ thicket.isDirectory? [] thicketRoot = .ok true ∧
    Walker.Loads ⟨thicketRoot, none⟩ thicket [] ∧
    Walker.Reaches ⟨thicketRoot, none⟩ thicket [] thicketRoot [] ["sub"] ∧
    ∃ whole part, Finds (Script.host [] [] false false) thicket
        (Walker.walk ⟨thicketRoot, none⟩ thicketRoot) whole ∧
      Finds (Script.host [] [] false false) thicket
        (Walker.walk ⟨thicketRoot, none⟩ (thicketRoot.down ["sub"])) part ∧
      part = whole.filter (fun p => thicketRoot.down ["sub"] ∈ p.parents) ∧
      thicketRoot.down ["sub", "deep", "c.py"] ∈ part := by
  have hstart : ((Walker.start thicketRoot).go (Script.host [] [] false false) thicketWorld).1 =
      .ok ⟨thicketRoot, none⟩ := by rfl
  have hsound : thicket.Sound := by decide +kernel
  have hdir : thicket.isDirectory? [] thicketRoot = .ok true := by decide +kernel
  have hloads : Walker.Loads ⟨thicketRoot, none⟩ thicket [] :=
    loads_of_readable (by decide +kernel) (by decide +kernel) (by simp)
  have hreach : Walker.Reaches ⟨thicketRoot, none⟩ thicket [] thicketRoot [] ["sub"] := by
    refine ⟨⟨⟨["p"], ?_, ?_⟩, by decide, ?_⟩, trivial⟩
    all_goals decide +kernel
  obtain ⟨whole, part, hwhole, hpart, -, hagrees⟩ := subwalk_agrees hstart hsound hdir hloads hreach
  refine ⟨hstart, hsound, hdir, hloads, hreach, whole, part, hwhole, hpart, hagrees closed_thicket, ?_⟩
  have hsub : thicket.isDirectory? [] (thicketRoot.down ["sub"]) = .ok true := by decide +kernel
  have hwalked : part = Walker.walked ⟨thicketRoot, none⟩ thicket [] (thicketRoot.down ["sub"]) :=
    hpart.unique (finds_walk hloads hsub) (w := thicketWorld) rfl
  rw [hwalked, mem_walked hsound]
  refine ⟨["deep"], "c.py", rfl, ⟨⟨⟨["p", "sub"], ?_, ?_⟩, by decide, ?_⟩, trivial⟩,
    ⟨.file .empty false, ["p", "sub", "deep"], ?_⟩, ?_, ?_⟩
  all_goals decide +kernel

end Walker

end LintRunner
