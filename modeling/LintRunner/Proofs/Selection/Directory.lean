import LintRunner.Proofs.FileTree.Resolve
import LintRunner.Proofs.Ignore.Subwalk
import LintRunner.Proofs.Selection.Chosen

/-! Choosing a directory by name beside choosing the whole project. Where patterns reach downward, the
directory stands for those files of the project that lie below it, unless it is excluded itself: who
names a directory asks the excluder about it first, and the walk of the whole project asks about files
only. -/

namespace LintRunner

open Run

variable {σ : Type} {h : Host σ} {w : World σ} {t : FileTree} {here : Location}

namespace Walker

theorem finds_findM?_of_ok {f : Path → Path} {ps : List Path} {found : Option Path} {w' : World σ}
    (hgo : (ps.findM? fun p => exists? (f p)).go h w = (.ok found, w')) :
    Finds h w.tree (ps.findM? fun p => exists? (f p)) found := by
  induction ps with
  | nil =>
    cases hgo
    exact finds_pure none
  | cons p ps ih =>
    rw [List.findM?] at hgo ⊢
    obtain ⟨b, w₁, hask, hrest⟩ := of_go_bind_ok hgo
    obtain ⟨rfl, hb⟩ := of_go_askTree_ok hask
    refine (finds_askTree hb).bind ?_
    cases b with
    | true =>
      cases hrest
      exact finds_pure (some p)
    | false => exact ih hrest

/-- From the same tree the same walker starts. -/
theorem finds_start_of_ok {root : Path} {v : Walker} (hv : ((start root).go h w).1 = .ok v) :
    Finds h w.tree (start root) v := by
  rcases hgo : (start root).go h w with ⟨r, w'⟩
  rw [hgo] at hv
  cases hv
  obtain ⟨git, w₁, hgit, hdone⟩ := of_go_bind_ok hgo
  cases hdone
  exact (finds_findM?_of_ok hgit).bind (finds_pure _)

/-- What a walk from the root lists has a name below it that the tree keeps. -/
theorem exists_way_of_lists (ht : t.Sound) {v : Walker} {base p : Path}
    (hp : v.Lists t here base p) :
    ∃ way, p = base.down way ∧ ∀ name ∈ way, FileTree.IsEntryName name := by
  obtain ⟨names, name, rfl, hreaches, hlists⟩ := hp
  obtain ⟨e, l, -, he⟩ := hlists.entry
  refine ⟨names ++ [name], rfl, ?_⟩
  simp only [List.mem_append, List.mem_singleton]
  rintro n (hn | rfl)
  · exact isEntryName_of_reaches ht hreaches n hn
  · exact ht.isEntryName he

end Walker

namespace Selector

open Walker

variable {s : Selector} {v : Walker} {names way : List String} {p q : Path} {files : List Path}

/-- The path below the project, unless it is excluded. -/
def keep? (s : Selector) (p : Path) : Option Path :=
  match s.relativeToRoot? p with
  | .ok q => if s.excluder.covers q false then none else some q
  | .error _ => none

theorem relativeToRoot?_down (habsolute : s.root.isAbsolute = true)
    (hroot : ".." ∉ s.root.parts) (hway : ".." ∉ way) :
    s.relativeToRoot? (s.root.down way) = .ok ⟨.relative, way⟩ := by
  have hjoin : s.cwd / s.root.down way = s.root.down way := if_pos habsolute
  have hdots : ".." ∉ (s.root.down way).parts := by simp [hroot, hway]
  rw [relativeToRoot?, hjoin, Path.normalize_of_no_dots hdots, Path.relativeTo?_down]

/-- The root is the path of a directory that no link leads to. -/
structure Placed (s : Selector) (t : FileTree) (here : Location) : Prop where
  anchor : s.root.anchor = .root
  place : t.status here s.root = .ok (s.root.parts, .directory)

theorem Placed.isAbsolute (hs : s.Placed t here) : s.root.isAbsolute = true := by
  simp [Path.isAbsolute, hs.anchor]

theorem Placed.isDirectory? (hs : s.Placed t here) : t.isDirectory? here s.root = .ok true :=
  FileTree.isDirectory?_eq_true_iff.2 ⟨_, hs.place⟩

theorem Placed.no_dots (hs : s.Placed t here) (ht : t.Sound) : ".." ∉ s.root.parts := by
  intro hmem
  obtain ⟨-, -, he⟩ := FileTree.status_eq_ok_iff.1 hs.place
  exact (ht.isEntryName_of_mem he hmem).2.2.1 rfl

theorem Placed.relativeToRoot? (hs : s.Placed t here) (ht : t.Sound)
    (hway : ∀ name ∈ way, FileTree.IsEntryName name) :
    s.relativeToRoot? (s.root.down way) = .ok ⟨.relative, way⟩ :=
  relativeToRoot?_down hs.isAbsolute (hs.no_dots ht) fun hmem => (hway _ hmem).2.2.1 rfl

theorem finds_addFound (hp : s.relativeToRoot? p = .ok q) (files : List Path) :
    Finds h t (s.addFound files p) (files ++ (s.keep? p).toList) := by
  refine (finds_ofExcept hp).bind ?_
  unfold keep?
  rw [hp]
  dsimp only
  split
  · simpa using finds_pure files
  · exact finds_pure _

theorem foldl_keep? (ps acc : List Path) :
    ps.foldl (fun acc p => acc ++ (s.keep? p).toList) acc = acc ++ ps.filterMap s.keep? := by
  induction ps generalizing acc with
  | nil => simp
  | cons p ps ih => cases hp : s.keep? p <;> simp [ih, hp]

theorem finds_walkFiles (hv : Finds h t (Walker.start s.root) v) (hloads : v.Loads t h.cwd) {base : Path}
    (hbase : t.isDirectory? h.cwd base = .ok true)
    (hbelow : ∀ p ∈ v.walked t h.cwd base, ∃ q, s.relativeToRoot? p = .ok q) :
    Finds h t (s.walkFiles base) ((v.walked t h.cwd base).filterMap s.keep?) := by
  have hfold : Finds h t (v.foldFiles s.addFound base [])
      ((v.walked t h.cwd base).foldl (fun acc p => acc ++ (s.keep? p).toList) []) := by
    refine finds_foldFiles hloads hbase (fun acc p hp => ?_) []
    obtain ⟨q, hq⟩ := hbelow p hp
    exact finds_addFound hq acc
  rw [foldl_keep?, List.nil_append] at hfold
  exact hv.bind hfold

/-- What comes of a choice among the files of the tree. -/
def outcomeOf (mode : Selection.Mode) (files : List Path) : Except Failure (Option (List Path)) :=
  if files = [] then .error (.selection (.allExcluded mode)) else .ok (some files)

theorem go_select_of_finds {requested : List Path} (hwanted : requested = [] ∨ s.mode = .paths)
    (hgit : s.mode.usesGit = false) (hfinds : Finds h t (s.candidates requested) files)
    (hw : w.tree = t) : ((s.select requested).go h w).1 = outcomeOf s.mode (Path.sortedSet files) := by
  have hno : ¬ (requested ≠ [] ∧ s.mode ≠ .paths) := by
    rintro ⟨hsome, hother⟩
    exact hwanted.elim hsome hother
  obtain ⟨w₁, hdebug, hw₁⟩ := finds_debug (h := h) ("Selecting " ++ s.mode.describe) w hw
  obtain ⟨w₂, hgo, -⟩ := hfinds w₁ (hw₁.tree.trans hw)
  rw [select, if_neg hno, go_bind_ok hdebug, go_bind_ok hgo, outcomeOf]
  by_cases hfiles : Path.sortedSet files = []
  · rw [if_neg (by simp [hfiles]), if_neg (by simp [hgit]), if_pos hfiles]
    rfl
  · rw [if_pos hfiles, if_neg hfiles]
    rfl

/-- The path that a user gives stands for the directory `d`: it says so, and it leads there. -/
structure Denotes (s : Selector) (t : FileTree) (here : Location) (p d : Path) : Prop where
  named : (s.cwd / p).normalize = d
  leads : t.status here (s.cwd / p) = .ok (d.parts, .directory)

theorem finds_filesAt_directory {d : Path} (habsolute : s.cwd.isAbsolute = true)
    (hd : s.Denotes t h.cwd p d) (hq : d.relativeTo? s.root = some q)
    (hresolve : t.resolve h.cwd (s.cwd / p) = .ok d) (hfiles : Finds h t (s.walkFiles d) files) :
    Finds h t (s.filesAt p) (if s.excluder.covers q true then [] else files) := by
  have hfull := Path.isAbsolute_join habsolute p
  have hexists : t.exists? h.cwd (s.cwd / p) = .ok true := by
    rw [FileTree.exists?, FileTree.inquire, hd.leads]
  have hdirectory : t.isDirectory? h.cwd (s.cwd / p) = .ok true :=
    FileTree.isDirectory?_eq_true_iff.2 ⟨_, hd.leads⟩
  have hrelative : s.relativeToRoot? (s.cwd / p) = .ok q := by
    rw [relativeToRoot?, show s.cwd / (s.cwd / p) = s.cwd / p from if_pos hfull, hd.named, hq]
  have hgo : Finds h t (resolve (s.cwd / p)) d := by
    rintro w rfl
    exact ⟨w, by rw [go_resolve, hresolve]; rfl, World.Still.refl w⟩
  refine (finds_askTree hexists).bind ((finds_ofExcept hrelative).bind ((finds_askTree hdirectory).bind ?_))
  split
  · exact (finds_debug _).bind (finds_pure _)
  · exact hgo.bind hfiles

theorem finds_explicitFiles_singleton (hfiles : Finds h t (s.filesAt p) files) :
    Finds h t (s.explicitFiles [p]) files := by
  have hall : Finds h t ([p].mapM s.filesAt) [files] :=
    Finds.mapM (g := fun _ => files) (by simpa using hfiles)
  have hflat : Finds h t (pure [files].flatten) files := by
    rw [List.flatten_singleton]
    exact finds_pure files
  exact (finds_debug _).bind (hall.bind hflat)

/-- Below a directory that the walk from the root goes into, the two walks list the same. -/
theorem mem_walked_down_iff (hv : v.Placed) (ht : t.Sound)
    (hclosed : ∀ f ∈ v.inheritedBy t here (v.root.down names), ∀ q ∈ f.patterns, q.DownwardClosed)
    (hreach : v.Reaches t here v.root [] names) (hnames : names ≠ []) :
    p ∈ v.walked t here (v.root.down names) ↔
      p ∈ v.walked t here v.root ∧ v.root.down names ∈ p.parents := by
  obtain ⟨above, last, rfl⟩ := (List.eq_nil_or_concat names).resolve_left hnames
  rw [List.concat_eq_append] at *
  rw [mem_walked ht, mem_walked ht]
  constructor
  · intro hp
    exact lists_up hv hclosed hreach ht hp
  · rintro ⟨hp, hbelow⟩
    exact lists_down hv hp hbelow

theorem keep?_eq_some (hs : s.Placed t here) (ht : t.Sound)
    (hway : ∀ name ∈ way, FileTree.IsEntryName name) (hq : s.keep? (s.root.down way) = some q) :
    q = ⟨.relative, way⟩ := by
  unfold keep? at hq
  rw [hs.relativeToRoot? ht hway] at hq
  dsimp only at hq
  split at hq
  · cases hq
  · exact (Option.some.inj hq).symm

/-- What is kept of a walk of the directory is what is kept of the whole walk below it. -/
theorem mem_kept_down_iff (hs : s.Placed t here) (ht : t.Sound)
    (hpart : ∀ p, p ∈ v.walked t here (s.root.down names) ↔
      p ∈ v.walked t here s.root ∧ s.root.down names ∈ p.parents) :
    q ∈ (v.walked t here (s.root.down names)).filterMap s.keep? ↔
      q ∈ (v.walked t here s.root).filterMap s.keep? ∧ ⟨.relative, names⟩ ∈ q.parents := by
  have hbelow : ∀ p ∈ v.walked t here s.root, ∀ q, s.keep? p = some q →
      (s.root.down names ∈ p.parents ↔ ⟨.relative, names⟩ ∈ q.parents) := by
    intro p hp q hq
    obtain ⟨way, rfl, hway⟩ := exists_way_of_lists ht ((mem_walked ht).1 hp)
    rw [keep?_eq_some hs ht hway hq, Path.mem_parents, Path.mem_parents]
    simp only [Path.down, Path.mk.injEq, true_and, List.append_cancel_left_eq,
      List.append_assoc]
  simp only [List.mem_filterMap]
  constructor
  · rintro ⟨p, hp, hq⟩
    obtain ⟨hwhole, hparent⟩ := (hpart p).1 hp
    exact ⟨⟨p, hwhole, hq⟩, (hbelow p hwhole q hq).1 hparent⟩
  · rintro ⟨⟨p, hwhole, hq⟩, hparent⟩
    exact ⟨p, (hpart p).2 ⟨hwhole, (hbelow p hwhole q hq).2 hparent⟩, hq⟩

theorem relative_of_keep? (hq : s.keep? p = some q) : q.anchor = .relative := by
  unfold keep? at hq
  split at hq
  · next hrel =>
    split at hq
    · cases hq
    · cases hq
      exact relative_of_relativeToRoot? hrel
  · cases hq

theorem sortedSet_filter {part whole : List Path} (hwhole : ∀ q ∈ whole, q.anchor = .relative)
    {below : Path → Bool} (hpart : ∀ q, q ∈ part ↔ q ∈ whole ∧ below q = true) :
    Path.sortedSet part = (Path.sortedSet whole).filter below := by
  refine Path.Ascending.eq_of_mem (Path.ascending_sortedSet fun q hq => hwhole q ((hpart q).1 hq).1)
    ((Path.ascending_sortedSet hwhole).filter _) fun q => ?_
  simp [Path.mem_sortedSet, hpart]

section Prepared

variable {root : Path} {cwd : Option Path} {exclude : List String} {git : Option Git}
  {mode : Selection.Mode}

theorem of_go_start_fst (hs : ((start mode root cwd exclude git).go h w).1 = .ok s) :
    s.mode = mode ∧ w.tree.resolve h.cwd root = .ok s.root ∧
      w.tree.resolve h.cwd (cwd.getD ⟨.root, h.cwd⟩) = .ok s.cwd ∧
      Matcher.compile s.root (exclude ++ vcsDirectories) = .ok s.excluder := by
  rcases hgo : (start mode root cwd exclude git).go h w with ⟨r, w'⟩
  rw [hgo] at hs
  cases hs
  obtain ⟨hmode, hroot, hcwd, hexcluder, -⟩ := of_start_ok hgo
  exact ⟨hmode, hroot, hcwd, hexcluder⟩

/-- Prepared alike, choices in different modes keep the same. -/
theorem keep?_eq_of_start {s' : Selector} {mode' : Selection.Mode}
    (hs : ((start mode root cwd exclude git).go h w).1 = .ok s)
    (hs' : ((start mode' root cwd exclude git).go h w).1 = .ok s') :
    s'.root = s.root ∧ s'.keep? = s.keep? := by
  obtain ⟨-, hroot, hcwd, hexcluder⟩ := of_go_start_fst hs
  obtain ⟨-, hroot', hcwd', hexcluder'⟩ := of_go_start_fst hs'
  have hsame : s'.root = s.root := Except.ok.inj (hroot'.symm.trans hroot)
  have hhere : s'.cwd = s.cwd := Except.ok.inj (hcwd'.symm.trans hcwd)
  rw [hsame] at hexcluder'
  have hexcludes : s'.excluder = s.excluder := Except.ok.inj (hexcluder'.symm.trans hexcluder)
  refine ⟨hsame, funext fun p => ?_⟩
  simp only [keep?, relativeToRoot?, hsame, hhere, hexcludes]

theorem placed_of_resolve (ht : t.Sound)
    (hhere : t.status here ⟨.root, here⟩ = .ok (here, .directory))
    (hroot : t.isDirectory? here root = .ok true) (hs : t.resolve here root = .ok s.root) :
    s.Placed t here := by
  obtain ⟨l, hl⟩ := FileTree.isDirectory?_eq_true_iff.1 hroot
  have hrooted : t.Rooted here :=
    FileTree.rooted_of_status (FileTree.rooted_originOf_of_isAbsolute rfl) hhere
  have hplace : s.root = ⟨.root, l⟩ := by
    have hresolve := FileTree.resolve_of_status ht (hrooted.originOf root) hl (by simp)
    rw [hs] at hresolve
    exact Except.ok.inj hresolve
  have hl' : t.Rooted l := FileTree.rooted_of_status (hrooted.originOf root) hl
  obtain ⟨-, -, he⟩ := FileTree.status_eq_ok_iff.1 hl
  exact ⟨by rw [hplace], by rw [hplace, FileTree.status_rooted ht hl' he (by simp)]⟩

end Prepared

section Candidates

variable (hs : s.Placed t h.cwd) (ht : t.Sound) (hv : Finds h t (Walker.start s.root) v)
  (hloads : v.Loads t h.cwd)

include hs ht hv hloads

theorem finds_walkFiles_down (hnames : ∀ name ∈ names, FileTree.IsEntryName name)
    (hd : t.isDirectory? h.cwd (s.root.down names) = .ok true) :
    Finds h t (s.walkFiles (s.root.down names))
      ((v.walked t h.cwd (s.root.down names)).filterMap s.keep?) := by
  refine finds_walkFiles hv hloads hd fun p hp => ?_
  obtain ⟨way, rfl, hway⟩ := exists_way_of_lists ht ((mem_walked ht).1 hp)
  have hboth : ∀ name ∈ names ++ way, FileTree.IsEntryName name := by
    intro name hname
    rcases List.mem_append.1 hname with hname | hname
    · exact hnames name hname
    · exact hway name hname
  exact ⟨_, by rw [Path.down_down, hs.relativeToRoot? ht hboth]⟩

theorem finds_candidates_all (hmode : s.mode = .all) (requested : List Path) :
    Finds h t (s.candidates requested) ((v.walked t h.cwd s.root).filterMap s.keep?) := by
  have hroot : t.isDirectory? h.cwd (s.root.down []) = .ok true := by
    rw [Path.down_nil]
    exact hs.isDirectory?
  have hwalk := finds_walkFiles_down hs ht hv hloads (by simp) hroot
  rw [Path.down_nil] at hwalk
  unfold candidates
  rw [hmode]
  exact hwalk

theorem finds_candidates_directory (hmode : s.mode = .paths) (habsolute : s.cwd.isAbsolute = true)
    (hreach : v.Reaches t h.cwd s.root [] names) (hp : s.Denotes t h.cwd p (s.root.down names)) :
    Finds h t (s.candidates [p]) (if s.excluder.covers ⟨.relative, names⟩ true then []
      else (v.walked t h.cwd (s.root.down names)).filterMap s.keep?) := by
  have hnames := isEntryName_of_reaches ht hreach
  have hroot : t.status h.cwd (s.root.down []) = .ok (s.root.parts, .directory) := by
    rw [Path.down_nil]
    exact hs.place
  have hdir : t.isDirectory? h.cwd (s.root.down names) = .ok true := by
    have hstatus := status_of_reaches ht hroot hreach
    rw [List.nil_append] at hstatus
    exact FileTree.isDirectory?_eq_true_iff.2 ⟨_, hstatus⟩
  have hresolve : t.resolve h.cwd (s.cwd / p) = .ok (s.root.down names) := by
    have hfull := Path.isAbsolute_join habsolute p
    rw [FileTree.resolve_of_status ht (FileTree.rooted_originOf_of_isAbsolute hfull) hp.leads (by simp),
      Path.down, hs.anchor]
  have hfiles := finds_walkFiles_down hs ht hv hloads hnames hdir
  have hat := finds_filesAt_directory habsolute hp (Path.relativeTo?_down _ _) hresolve hfiles
  unfold candidates
  rw [hmode]
  exact finds_explicitFiles_singleton hat

end Candidates

/-- Two choices prepared alike: one of the whole project, and one of a directory below the root that
the walk of the project goes into. The rules that the directory inherits reach downward. -/
structure Paired (h : Host σ) (w : World σ) (root : Path) (cwd : Option Path) (exclude : List String)
    (git : Option Git) (all one : Selector) (v : Walker) (names : List String) (p : Path) : Prop where
  whole : ((start .all root cwd exclude git).go h w).1 = .ok all
  named : ((start .paths root cwd exclude git).go h w).1 = .ok one
  sound : w.tree.Sound
  here : w.tree.status h.cwd ⟨.root, h.cwd⟩ = .ok (h.cwd, .directory)
  root : w.tree.isDirectory? h.cwd root = .ok true
  walker : ((Walker.start all.root).go h w).1 = .ok v
  loads : v.Loads w.tree h.cwd
  reaches : v.Reaches w.tree h.cwd all.root [] names
  below : names ≠ []
  closed : ∀ f ∈ v.inheritedBy w.tree h.cwd (all.root.down names), ∀ q ∈ f.patterns, q.DownwardClosed
  denotes : one.Denotes w.tree h.cwd p (all.root.down names)

end Selector

namespace Sample

/-- A directory that is excluded, and a file in it that is not. -/
def shelf : FileTree := ⟨[(["p"], .directory), (["p", "d"], .directory),
  (["p", "d", "a.py"], .file .empty false)]⟩

def shelfWorld : World Script := ⟨shelf, {}, [], {}, .warning⟩

def shelfHost : Host Script := Script.host ["p"] [] false false

def shelfRoot : Path := ⟨.root, ["p"]⟩

theorem paired_shelf {all one : Selector} {exclude : List String}
    (hall : ((Selector.start .all shelfRoot none exclude none).go shelfHost shelfWorld).1 = .ok all)
    (hone : ((Selector.start .paths shelfRoot none exclude none).go shelfHost shelfWorld).1 = .ok one) :
    Selector.Paired shelfHost shelfWorld shelfRoot none exclude none all one ⟨shelfRoot, none⟩ ["d"]
      ⟨.relative, ["d"]⟩ := by
  have hresolve : shelf.resolve ["p"] shelfRoot = .ok shelfRoot := by decide +kernel
  have hroot : all.root = shelfRoot := by
    obtain ⟨-, hroot, -⟩ := Selector.of_go_start_fst hall
    exact Except.ok.inj (hroot.symm.trans hresolve)
  have hcwd : one.cwd = shelfRoot := by
    obtain ⟨-, -, hcwd, -⟩ := Selector.of_go_start_fst hone
    exact Except.ok.inj (hcwd.symm.trans hresolve)
  refine ⟨hall, hone, by decide +kernel, by decide +kernel, by decide +kernel, by rw [hroot]; rfl, Walker.loads_of_readable (by decide +kernel) (by decide +kernel) (by simp), ?_,
    by decide, ?_, ?_⟩
  · rw [hroot]
    refine ⟨⟨⟨["p"], ?_, ?_⟩, by decide, ?_⟩, trivial⟩
    all_goals decide +kernel
  · rw [hroot]
    have hnone : Walker.inheritedBy ⟨shelfRoot, none⟩ shelf ["p"] (shelfRoot.down ["d"]) = [] := by
      rfl
    intro f hf
    rw [show shelfWorld.tree = shelf from rfl, show shelfHost.cwd = ["p"] from rfl, hnone] at hf
    cases hf
  · refine ⟨?_, ?_⟩
    all_goals rw [hroot, hcwd]
    all_goals decide +kernel

end Sample

namespace Selector

open Walker

open Sample in
/-- The directory need not stand for what lies below it: the excluder may turn it away and still let
files in it pass. -/
theorem not_directory_agrees : ¬ ∀ (h : Host Script) (w : World Script) (root : Path)
    (cwd : Option Path) (exclude : List String) (git : Option Git) (all one : Selector) (v : Walker)
    (names : List String) (p : Path), w.tree.linkCount = 0 →
      Paired h w root cwd exclude git all one v names p → ∃ files, ((all.select []).go h w).1 = outcomeOf .all files ∧
        ((one.select [p]).go h w).1 =
          outcomeOf .paths (files.filter (⟨.relative, names⟩ ∈ ·.parents)) := by
  have hruled : (start .all shelfRoot none ["d/", "!d/a.py"] none).comesTo shelfHost shelfWorld
      (fun all _ => (start .paths shelfRoot none ["d/", "!d/a.py"] none).comesTo shelfHost shelfWorld
        fun one _ => decide (
          ((all.select []).go shelfHost shelfWorld).1.toOption = some (some [⟨.relative, ["d", "a.py"]⟩]) ∧
          ((one.select [⟨.relative, ["d"]⟩]).go shelfHost shelfWorld).1.toOption = none)) = true := by
    decide +kernel
  obtain ⟨all, _, hwhole, hruled⟩ := of_comesTo hruled
  obtain ⟨one, _, hnamed, hruled⟩ := of_comesTo hruled
  obtain ⟨hfound, hnone⟩ := of_decide_eq_true hruled
  intro hall
  obtain ⟨files, hfiles, hpart⟩ :=
    hall _ _ _ _ _ _ _ _ _ _ _ rfl (paired_shelf (by rw [hwhole]) (by rw [hnamed]))
  rw [hfiles, outcomeOf] at hfound
  rw [hpart, outcomeOf] at hnone
  split at hfound
  · cases hfound
  · cases hfound
    revert hnone
    decide

/-- Choosing a directory that the walk of the whole project goes into: it stands for the files of the
whole choice that lie below it, and for none if it is excluded itself. -/
theorem directory_agrees {root : Path} {cwd : Option Path} {exclude : List String} {git : Option Git}
    {all one : Selector} (hpaired : Paired h w root cwd exclude git all one v names p) :
    ∃ files, ∀ w', w'.tree = w.tree →
      ((all.select []).go h w').1 = outcomeOf .all files ∧
      ((one.select [p]).go h w').1 = outcomeOf .paths
        (if one.excluder.covers ⟨.relative, names⟩ true then []
          else files.filter (⟨.relative, names⟩ ∈ ·.parents)) := by
  obtain ⟨hall, hone, ht, hhere, hroot, hv, hloads, hreach, hnames, hclosed, hp⟩ := hpaired
  obtain ⟨hmode, hallroot, -⟩ := of_go_start_fst hall
  obtain ⟨hmode', honeroot, honecwd, -⟩ := of_go_start_fst hone
  obtain ⟨hsame, hkeep⟩ := keep?_eq_of_start hall hone
  have hplaced : all.Placed w.tree h.cwd := placed_of_resolve ht hhere hroot hallroot
  have hplaced' : one.Placed w.tree h.cwd := placed_of_resolve ht hhere hroot honeroot
  obtain ⟨hvroot, hvplaced⟩ := gives_start all.root w v hv
  have hfound : Finds h w.tree (Walker.start all.root) v := finds_start_of_ok hv
  have habsolute : one.cwd.isAbsolute = true := by
    rw [Path.isAbsolute, (FileTree.of_resolve_ok honecwd).1]
    rfl
  have hpart : ∀ p, p ∈ v.walked w.tree h.cwd (all.root.down names) ↔
      p ∈ v.walked w.tree h.cwd all.root ∧ all.root.down names ∈ p.parents := by
    intro p
    rw [← hvroot] at hclosed hreach ⊢
    exact mem_walked_down_iff hvplaced ht hclosed hreach hnames
  refine ⟨Path.sortedSet ((v.walked w.tree h.cwd all.root).filterMap all.keep?), fun w' hw' => ⟨?_, ?_⟩⟩
  · have hfinds := finds_candidates_all hplaced ht hfound hloads hmode []
    rw [go_select_of_finds (.inl rfl) (by rw [hmode]; rfl) hfinds hw', hmode]
  · rw [← hsame] at hfound hreach hp
    have hfinds := finds_candidates_directory hplaced' ht hfound hloads hmode' habsolute hreach hp
    rw [go_select_of_finds (.inr hmode') (by rw [hmode']; rfl) hfinds hw', hmode']
    split
    · rfl
    · rw [hkeep, hsame]
      have hwhole : ∀ q ∈ (v.walked w.tree h.cwd all.root).filterMap all.keep?, q.anchor = .relative := by
        intro q hq
        obtain ⟨p, -, hq⟩ := List.mem_filterMap.1 hq
        exact relative_of_keep? hq
      rw [sortedSet_filter hwhole fun q => ?_]
      simpa using mem_kept_down_iff hplaced ht hpart

open Sample in
/-- Here what is in the directory is excluded, and its one file taken back. -/
theorem directory_agrees_shelf : ∃ all one,
    Paired shelfHost shelfWorld shelfRoot none ["d/*", "!a.py"] none all one ⟨shelfRoot, none⟩ ["d"]
      ⟨.relative, ["d"]⟩ ∧
    ((all.select []).go shelfHost shelfWorld).1 = .ok (some [⟨.relative, ["d", "a.py"]⟩]) ∧
    ((one.select [⟨.relative, ["d"]⟩]).go shelfHost shelfWorld).1 =
      .ok (some [⟨.relative, ["d", "a.py"]⟩]) := by
  have hruled : (start .all shelfRoot none ["d/*", "!a.py"] none).comesTo shelfHost shelfWorld
      (fun all _ => (start .paths shelfRoot none ["d/*", "!a.py"] none).comesTo shelfHost shelfWorld
        fun one _ => decide (one.excluder.covers ⟨.relative, ["d"]⟩ true = false ∧
          ((all.select []).go shelfHost shelfWorld).1.toOption =
            some (some [⟨.relative, ["d", "a.py"]⟩]))) = true := by decide +kernel
  obtain ⟨all, _, hwhole, hruled⟩ := of_comesTo hruled
  obtain ⟨one, _, hnamed, hruled⟩ := of_comesTo hruled
  obtain ⟨hkept, hfound⟩ := of_decide_eq_true hruled
  have hpaired : Paired shelfHost shelfWorld shelfRoot none ["d/*", "!a.py"] none all one
      ⟨shelfRoot, none⟩ ["d"] ⟨.relative, ["d"]⟩ := paired_shelf (by rw [hwhole]) (by rw [hnamed])
  obtain ⟨files, hagrees⟩ := directory_agrees hpaired
  obtain ⟨hall, hone⟩ := hagrees shelfWorld rfl
  have hfiles : files = [⟨.relative, ["d", "a.py"]⟩] := by
    rw [hall, outcomeOf] at hfound
    split at hfound
    · cases hfound
    · exact Option.some.inj (Option.some.inj hfound)
  rw [hkept, hfiles] at hone
  rw [hfiles] at hall
  exact ⟨all, one, hpaired, hall, hone⟩

end Selector

end LintRunner
