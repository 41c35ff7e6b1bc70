import LintRunner.Proofs.Ignore.Subwalk
import LintRunner.Proofs.Run.Reads

/-! A walk that begins where no directory is lists nothing. Below such a place every question is refused alike, so
once the search for a repository has come to its answer there, the questions after it are answered as well. -/

namespace LintRunner

open Run

variable {σ : Type} {h : Host σ} {t : FileTree} {here l : Location} {p d : Path} {names : List String}

namespace FileTree

/-- Where a way comes to no directory, one more name is refused, whatever it is. -/
theorem descend_beyond
    (hno : ∀ l', t.descend true l names = .done (.found l') → t.get? l' ≠ some .directory) :
    (∃ e, ∀ name, t.descend true l (names ++ [name]) = .done (.refused e)) ∨
      ∃ origin target rest, t.descend true l names = .link origin target rest ∧
        ∀ name, t.descend true l (names ++ [name]) = .link origin target (rest ++ [name]) := by
  induction names generalizing l with
  | nil => exact .inl ⟨.notDirectory, fun name => by rw [List.nil_append, descend, if_pos (hno l rfl)]⟩
  | cons n rest ih =>
    simp only [List.cons_append]
    unfold descend at hno ⊢
    by_cases hl : t.get? l = some .directory
    · simp only [hl, ne_eq, not_true_eq_false, if_false] at hno ⊢
      by_cases hdot : n = "."
      · simp only [hdot, if_true] at hno ⊢
        exact ih hno
      by_cases hup : n = ".."
      · simp only [if_neg hdot, if_pos hup] at hno ⊢
        exact ih hno
      by_cases hlong : longestName < n.utf8ByteSize
      · simp only [hdot, hup, hlong, if_false, if_true]
        exact .inl ⟨_, fun _ => rfl⟩
      simp only [hdot, hup, hlong, if_false] at hno ⊢
      cases he : t.get? (l ++ [n]) with
      | none => exact .inl ⟨.noEntry, fun name => by simp⟩
      | some e =>
        rw [he] at hno
        cases e with
        | link target => exact .inr ⟨l, target, rest, by simp, fun name => by simp⟩
        | file bytes executable => exact ih hno
        | directory => exact ih hno
    · simp only [hl, ne_eq, not_false_eq_true, if_true]
      exact .inl ⟨_, fun _ => rfl⟩

theorem walkTo_beyond {links : Nat}
    (hno : ∀ l', t.walkTo true links l names = .found l' → t.get? l' ≠ some .directory) :
    ∃ e, ∀ name, t.walkTo true links l (names ++ [name]) = .refused e := by
  have hstep {links : Nat} {l : Location} {names : List String}
      (hno : ∀ l', t.walkTo true links l names = .found l' → t.get? l' ≠ some .directory) (l' : Location)
      (hl' : t.descend true l names = .done (.found l')) : t.get? l' ≠ some .directory :=
    hno l' (by rw [walkTo, hl'])
  induction links generalizing l names with
  | zero =>
    rcases descend_beyond (hstep hno) with ⟨e, he⟩ | ⟨origin, target, rest, -, hlink⟩
    · exact ⟨e, fun name => by rw [walkTo, he]⟩
    · exact ⟨.linkLoop, fun name => by rw [walkTo, hlink]⟩
  | succ links ih =>
    rcases descend_beyond (hstep hno) with ⟨e, he⟩ | ⟨origin, target, rest, hnames, hlink⟩
    · exact ⟨e, fun name => by rw [walkTo, he]⟩
    · rw [walkTo, hnames] at hno
      dsimp only at hno
      obtain ⟨e, he⟩ := ih hno
      refine ⟨e, fun name => ?_⟩
      rw [walkTo, hlink]
      dsimp only
      rw [← List.append_assoc]
      exact he name

theorem status_beyond (hno : ¬ ∃ l, t.status here d = .ok (l, .directory)) :
    ∃ r, ∀ name, '\x00' ∉ name.toList → t.status here (d.child name) = .error r := by
  cases hnul : hasNul d with
  | true =>
    refine ⟨.nul, fun name _ => ?_⟩
    rw [status, locate, hasNul_child, hnul]
    rfl
  | false =>
    obtain ⟨e, he⟩ := walkTo_beyond fun l hl hdir => hno ⟨l, status_eq_ok_iff.2 ⟨hnul, hl, hdir⟩⟩
    refine ⟨.errno e, fun name hname => ?_⟩
    have hwalk : t.walkTo true mostLinks (originOf here (d.child name)) (d.child name).parts = .refused e :=
      he name
    have hchild : hasNul (d.child name) = false := by simp [hasNul_child, hnul, hname]
    rw [status, locate, hchild, if_neg (by simp), hwalk]
    rfl

end FileTree

theorem IgnoreFile.loads_beyond (hno : ¬ ∃ l, t.status here d = .ok (l, .directory)) {asked name : String} {b : Bool}
    (hasked : '\x00' ∉ asked.toList) (hb : t.exists? here (d.child asked) = .ok b) (hname : '\x00' ∉ name.toList) :
    IgnoreFile.Loads t here (d.child name) := by
  obtain ⟨r, hr⟩ := FileTree.status_beyond hno
  have hsettles : FileTree.settles r = true := by
    by_contra hno
    rw [FileTree.exists?, FileTree.inquire, hr asked hasked] at hb
    dsimp only at hb
    rw [if_neg hno] at hb
    cases hb
  rw [IgnoreFile.Loads, hr name hname]
  exact hsettles

/-- From a path up, each is longer than the next. -/
theorem Path.pairwise_self_and_parents (p : Path) :
    (p :: p.parents).Pairwise fun q q' => q'.parts.length < q.parts.length := by
  suffices ∀ parts : List String,
      (parts :: beginnings parts).Pairwise fun xs ys => ys.length < xs.length by
    have hmap : p :: p.parents = (p.parts :: beginnings p.parts).map fun parts => { p with parts } := rfl
    rw [hmap]
    exact List.pairwise_map.2 (this p.parts)
  intro parts
  induction parts using List.reverseRec with
  | nil => simp [beginnings]
  | append_singleton parts name ih =>
    rw [beginnings_concat]
    refine List.pairwise_cons.2 ⟨fun ys hys => ?_, ih⟩
    rw [List.length_append, List.length_singleton]
    rcases List.mem_cons.1 hys with rfl | hys
    · exact Nat.lt_succ_self _
    · obtain ⟨zs, -, rfl⟩ := mem_beginnings.1 hys
      rw [List.length_append]
      omega

namespace Walker

/-- All are asked about, down to the one that is found. -/
theorem reads_findM? {ps : List Path} (hps : ps.Pairwise fun p q => q.parts.length < p.parts.length) :
    Reads h t (fun found => ∀ d ∈ ps, (∀ git, found = some git → git.parts.length ≤ d.parts.length) →
      ∃ b, t.exists? h.cwd (d.child ".git") = .ok b) (ps.findM? fun p => exists? (p.child ".git")) := by
  induction ps with
  | nil => exact reads_pure nofun
  | cons p ps ih =>
    obtain ⟨hp, hps⟩ := List.pairwise_cons.1 hps
    rw [List.findM?]
    refine (reads_askTree _ _).bind fun b hb => ?_
    cases b with
    | true =>
      refine reads_pure fun d hd hlong => ?_
      rcases List.mem_cons.1 hd with rfl | hd
      · exact ⟨_, hb⟩
      · exact absurd (hlong p rfl) (Nat.not_le.2 (hp d hd))
    | false =>
      refine (ih hps).mono fun found hfound d hd hlong => ?_
      rcases List.mem_cons.1 hd with rfl | hd
      · exact ⟨_, hb⟩
      · exact hfound d hd hlong

variable {v : Walker} {root : Path} {w : World σ}

theorem asked_of_start (hv : ((start root).go h w).1 = .ok v) {more : List String} (hroot : root = d.down more)
    (hlong : ∀ git, v.gitRoot = some git → git.parts.length ≤ d.parts.length) :
    ∃ b, w.tree.exists? h.cwd (d.child ".git") = .ok b := by
  have hd : d ∈ root :: root.parents := by
    by_cases hmore : more = []
    · rw [hroot, hmore, Path.down_nil]
      exact List.mem_cons_self
    · exact List.mem_cons_of_mem _ (Path.mem_parents.2 ⟨more, hmore, hroot⟩)
  have hreads : Reads h w.tree (fun v : Walker => (∀ git, v.gitRoot = some git → git.parts.length ≤ d.parts.length) →
      ∃ b, w.tree.exists? h.cwd (d.child ".git") = .ok b) (start root) :=
    (reads_findM? (Path.pairwise_self_and_parents root)).bind fun found hfound => reads_pure (hfound d hd)
  exact (hreads w rfl).value v hv hlong

/-- The rules of whatever lies above the root can be read, directory or not. -/
theorem finds_rulesIn_of_start (hv : ((start root).go h w).1 = .ok v) (hloads : v.Loads w.tree h.cwd)
    {more : List String} (hroot : root = d.down more)
    (hlong : ∀ git, v.gitRoot = some git → git.parts.length ≤ d.parts.length) :
    Finds h w.tree (v.rulesIn d) (v.own w.tree h.cwd d) := by
  by_cases hdir : ∃ l, w.tree.status h.cwd d = .ok (l, .directory)
  · exact finds_rulesIn hloads (FileTree.isDirectory?_eq_true_iff.2 hdir)
  · obtain ⟨b, hb⟩ := asked_of_start hv hroot hlong
    exact finds_rulesIn_of_loads (fun _ => IgnoreFile.loads_beyond hdir (by decide) hb (by decide))
      (IgnoreFile.loads_beyond hdir (by decide) hb (by decide))

theorem entriesAt_of_missing (hno : ¬ ∃ l, t.status here d = .ok (l, .directory)) : t.entriesAt here d = [] := by
  unfold FileTree.entriesAt
  split
  · next l hs => exact absurd ⟨l, hs⟩ hno
  · rfl

theorem walked_of_missing (hno : ¬ ∃ l, t.status here p = .ok (l, .directory)) : v.walked t here p = [] := by
  simp [walked, listed, filesIn, dirsIn, entriesAt_of_missing hno]

theorem finds_walk_of_start (hv : ((start root).go h w).1 = .ok v) (hloads : v.Loads w.tree h.cwd) :
    Finds h w.tree (v.walk root) (v.walked w.tree h.cwd root) := by
  by_cases hdir : ∃ l, w.tree.status h.cwd root = .ok (l, .directory)
  · exact finds_walk hloads (FileTree.isDirectory?_eq_true_iff.2 hdir)
  rw [walked_of_missing hdir]
  have hinherited : Finds h w.tree (v.inherited root) (v.inheritedBy w.tree h.cwd root) := by
    refine finds_inherited_of_steps hloads fun below hrel d hd => ?_
    obtain ⟨more, hmore⟩ := exists_parent_eq_down hrel hd
    obtain ⟨last, hlast⟩ := root.exists_eq_parent_down
    rw [hmore, Path.down_down] at hlast
    refine finds_rulesIn_of_start hv hloads hlast fun git hgit => ?_
    obtain ⟨front, back, -, rfl⟩ := mem_steps.1 hd
    rw [top, hgit, Option.getD_some, Path.down_parts, List.length_append]
    exact Nat.le_add_right _ _
  have hrules : Finds h w.tree (v.rulesIn root) (v.own w.tree h.cwd root) := by
    refine finds_rulesIn_of_start hv hloads (Path.down_nil root).symm fun git hgit => ?_
    obtain ⟨hroot, names, hnames⟩ := gives_start root w v hv
    rw [← hroot, hnames, top, hgit, Option.getD_some, Path.down_parts, List.length_append]
    exact Nat.le_add_right _ _
  refine hinherited.bind ((Finds.mapM fun f _ => IgnoreFile.finds_release f root).bind (finds_tree.bind ?_))
  unfold foldBelow
  refine (finds_listing root).bind (hrules.bind (finds_tree.bind (finds_here.bind ?_)))
  rw [entriesAt_of_missing hdir]
  exact finds_pure []

end Walker

end LintRunner
