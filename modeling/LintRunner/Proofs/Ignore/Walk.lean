import LintRunner.Proofs.Ignore.Force
import LintRunner.Script

/-! What a walk lists: the files that no rule in force in their directory ignores, in the directories
that the walk goes into. `Walker.listed` follows the recursion of the walk without its world; the rest
says which ways it lists and in which order. -/

namespace LintRunner

open Run

variable {σ α : Type} {h : Host σ} {t : FileTree} {here : Location}

namespace Walker

section Listed

variable (v : Walker) (t : FileTree) (here : Location) (base : Path)

/-- The files of the directory that `names` lead to, without those that are ignored there. -/
def filesIn (names : List String) : List String :=
  ((t.entriesAt here (base.down names)).filter fun e =>
    !leadsToDirectory t here (base.down (names ++ [e.1])) &&
      !isIgnored (base.down (names ++ [e.1])) (v.inForce t here base names) false).map (·.1)

/-- The directories that the walk goes on into. -/
def dirsIn (names : List String) : List String :=
  ((t.entriesAt here (base.down names)).filter fun e =>
    leadsToDirectory t here (base.down (names ++ [e.1])) && !vcsDirectories.contains e.1 &&
      !isIgnored (base.down (names ++ [e.1])) (v.inForce t here base names) true &&
      !isLink e.2).map (·.1)

/-- The ways from the base to the files that are listed below the directory at the end of `names`. -/
def listed : Nat → List String → List (List String)
  | 0, _ => []
  | levels + 1, names =>
    (v.filesIn t here base names).map (fun name => names ++ [name]) ++
      (v.dirsIn t here base names).flatMap fun name => listed levels (names ++ [name])

def walked : List Path := (v.listed t here base (t.depth + 1) []).map base.down

end Listed

variable {v : Walker} {base : Path} {names : List String}

theorem finds_listing (d : Path) : Finds h t (listing d) (t.entriesAt h.cwd d) := by
  refine finds_tree.bind (finds_here.bind ?_)
  unfold FileTree.entriesAt
  cases t.status h.cwd d with
  | error r => exact finds_pure []
  | ok found =>
    obtain ⟨l, e⟩ := found
    cases e with
    | directory => exact finds_tree.bind (finds_pure _)
    | _ => exact finds_pure []

theorem finds_admits (rules : List IgnoreFile) (d : Path) : Finds h t (admits rules d)
    (!vcsDirectories.contains d.name && !isIgnored d rules true) := by
  unfold admits
  split
  · next hvcs =>
    rw [hvcs]
    exact finds_pure _
  · next hvcs =>
    rw [Bool.not_eq_true] at hvcs
    rw [hvcs]
    split
    · next hig =>
      rw [hig]
      exact (finds_debug _).bind (finds_pure _)
    · next hig =>
      rw [Bool.not_eq_true] at hig
      rw [hig]
      exact finds_pure _

theorem leadsToDirectory_eq_true_iff {p : Path} :
    leadsToDirectory t here p = true ↔ t.isDirectory? here p = .ok true := by
  unfold leadsToDirectory
  cases t.isDirectory? here p <;> simp

theorem isDirectory?_of_mem_dirsIn {name : String} (hname : name ∈ v.dirsIn t here base names) :
    t.isDirectory? here (base.down (names ++ [name])) = .ok true := by
  obtain ⟨e, he, rfl⟩ := List.mem_map.1 hname
  have hkept := (List.mem_filter.1 he).2
  simp only [Bool.and_eq_true] at hkept
  exact leadsToDirectory_eq_true_iff.1 hkept.1.1.1

variable {step : α → Path → Run σ α} {g : α → Path → α}

theorem foldl_listed_succ (levels : Nat) (acc : α) :
    ((v.listed t here base (levels + 1) names).map base.down).foldl g acc =
      (v.dirsIn t here base names).foldl
        (fun acc name => ((v.listed t here base levels (names ++ [name])).map base.down).foldl g acc)
        (((v.filesIn t here base names).map fun name => base.down (names ++ [name])).foldl g acc) := by
  rw [listed, List.map_append, List.foldl_append, List.map_map, List.map_flatMap, List.foldl_flatMap]
  rfl

theorem filesIn_paths (v : Walker) (t : FileTree) (here : Location) (base : Path)
    (names : List String) :
    (((t.entriesAt here (base.down names)).filter
      (not ∘ fun e => leadsToDirectory t here (base.down (names ++ [e.1])))).map
        fun e => base.down (names ++ [e.1])).filter
          (!isIgnored · (v.inForce t here base names) false) =
      (v.filesIn t here base names).map fun name => base.down (names ++ [name]) := by
  simp [filesIn, List.filter_map, List.filter_filter, Function.comp_def, Bool.and_comm]

theorem dirsIn_eq (v : Walker) (t : FileTree) (here : Location) (base : Path) (names : List String) :
    v.dirsIn t here base names =
      ((((t.entriesAt here (base.down names)).filter
        fun e => leadsToDirectory t here (base.down (names ++ [e.1]))).filter fun e =>
          !vcsDirectories.contains (base.down (names ++ [e.1])).name &&
            !isIgnored (base.down (names ++ [e.1])) (v.inForce t here base names) true).filter
        (!isLink ·.2)).map (·.1) := by
  simp only [dirsIn, List.filter_filter, Path.name_down_append]
  congr 2
  funext e
  ac_rfl

theorem finds_foldBelow (hloads : v.Loads t h.cwd) (levels : Nat) {above : List IgnoreFile}
    (hstep : ∀ acc, ∀ way ∈ v.listed t h.cwd base levels names,
      Finds h t (step acc (base.down way)) (g acc (base.down way)))
    (habove : above ++ v.own t h.cwd (base.down names) = v.inForce t h.cwd base names)
    (hdir : t.isDirectory? h.cwd (base.down names) = .ok true) (acc : α) :
    Finds h t (v.foldBelow step levels above (base.down names) acc)
      (((v.listed t h.cwd base levels names).map base.down).foldl g acc) := by
  induction levels generalizing above names acc with
  | zero => exact finds_pure _
  | succ levels ih =>
    have hfiles : ∀ acc, ∀ p ∈ (v.filesIn t h.cwd base names).map fun name => base.down (names ++ [name]),
        Finds h t (step acc p) (g acc p) := by
      intro acc p hp
      obtain ⟨name, hname, rfl⟩ := List.mem_map.1 hp
      exact hstep acc _ (List.mem_append_left _ (List.mem_map_of_mem hname))
    have hdirs : ∀ acc, ∀ name ∈ v.dirsIn t h.cwd base names, Finds h t
        (v.foldBelow step levels (v.inForce t h.cwd base names) (base.down (names ++ [name])) acc)
        (((v.listed t h.cwd base levels (names ++ [name])).map base.down).foldl g acc) := by
      intro acc name hname
      refine ih (fun acc way hway => hstep acc way ?_) (inForce_child v t h.cwd base names name).symm
        (isDirectory?_of_mem_dirsIn hname) acc
      exact List.mem_append_right _ (List.mem_flatMap.2 ⟨name, hname, hway⟩)
    unfold foldBelow
    refine (finds_listing _).bind ((finds_rulesIn hloads hdir).bind
      (finds_tree.bind (finds_here.bind ?_)))
    simp only [habove, List.partition_eq_filter_filter, Path.child_down]
    refine (Finds.filterM fun e _ => finds_admits _ _).bind ?_
    rw [filesIn_paths, foldl_listed_succ]
    refine (Finds.foldlM hfiles acc).bind ?_
    rw [dirsIn_eq] at hdirs ⊢
    have hfold := fun acc => Finds.foldlM hdirs acc
    simp only [List.foldlM_map] at hfold
    exact hfold _

theorem finds_foldFiles (hloads : v.Loads t h.cwd) (hbase : t.isDirectory? h.cwd base = .ok true)
    (hstep : ∀ acc, ∀ p ∈ v.walked t h.cwd base, Finds h t (step acc p) (g acc p)) (acc : α) :
    Finds h t (v.foldFiles step base acc) ((v.walked t h.cwd base).foldl g acc) := by
  refine (finds_inherited hloads hbase).bind
    ((Finds.mapM fun f _ => IgnoreFile.finds_release f base).bind (finds_tree.bind ?_))
  have hrules : (v.inheritedBy t h.cwd base).map (·.released base) ++
      v.own t h.cwd (base.down []) = v.inForce t h.cwd base [] := by simp [inForce, steps]
  have hbelow := finds_foldBelow hloads (t.depth + 1)
    (fun acc way hway => hstep acc _ (List.mem_map_of_mem hway)) hrules (by simpa using hbase) acc
  simpa [walked] using hbelow

theorem finds_walk (hloads : v.Loads t h.cwd) (hbase : t.isDirectory? h.cwd base = .ok true) :
    Finds h t (v.walk base) (v.walked t h.cwd base) := by
  have hfold (files acc : List Path) : files.foldl (fun acc p => acc ++ [p]) acc = acc ++ files := by
    induction files generalizing acc with
    | nil => simp
    | cons p files ih => simp [ih]
  have hwalk := finds_foldFiles (g := fun acc p => acc ++ [p]) hloads hbase
    (fun acc p _ => finds_pure (h := h) (acc ++ [p])) []
  rwa [hfold] at hwalk

section Lists

variable (v : Walker) (t : FileTree) (here : Location) (base : Path)

/-- The walk goes from the directory at the end of `names` into the one of this name there. -/
structure GoesInto (names : List String) (name : String) : Prop where
  directory : t.Holds here (base.down names) name .directory
  control : name ∉ vcsDirectories
  kept : isIgnored (base.down (names ++ [name])) (v.inForce t here base names) true = false

/-- The directory at the end of `names` has a file of this name that is not ignored there. -/
structure ListsIn (names : List String) (name : String) : Prop where
  entry : ∃ e, t.Holds here (base.down names) name e
  file : leadsToDirectory t here (base.down (names ++ [name])) = false
  kept : isIgnored (base.down (names ++ [name])) (v.inForce t here base names) false = false

/-- The walk gets from the directory at the end of `names` all the way along `more`. -/
def Reaches : (names more : List String) → Prop
  | _, [] => True
  | names, name :: more => v.GoesInto t here base names name ∧ Reaches (names ++ [name]) more

/-- The walk from `base` lists `p`. -/
def Lists (p : Path) : Prop :=
  ∃ names name, p = base.down (names ++ [name]) ∧ v.Reaches t here base [] names ∧
    v.ListsIn t here base names name

end Lists

variable {name : String} {more way : List String}

theorem reaches_append {rest : List String} : v.Reaches t here base names (more ++ rest) ↔
    v.Reaches t here base names more ∧ v.Reaches t here base (names ++ more) rest := by
  induction more generalizing names with
  | nil => simp [Reaches]
  | cons name more ih => simp [Reaches, ih, and_assoc]

theorem mem_filesIn (ht : t.Sound) :
    name ∈ v.filesIn t here base names ↔ v.ListsIn t here base names name := by
  simp only [filesIn, List.mem_map, List.mem_filter, Bool.and_eq_true, Bool.not_eq_true', Prod.exists,
    exists_and_right, exists_eq_right, ht.mem_entriesAt]
  exact ⟨fun ⟨he, hfile, hkept⟩ => ⟨he, hfile, hkept⟩, fun ⟨he, hfile, hkept⟩ => ⟨he, hfile, hkept⟩⟩

/-- Where no link stands, the entry itself tells whether it leads to a directory. -/
theorem leadsToDirectory_of_holds (ht : t.Sound) {e : Entry}
    (he : t.Holds here (base.down names) name e) (hlink : isLink e = false) :
    leadsToDirectory t here (base.down (names ++ [name])) = FileTree.Entry.isDirectory e := by
  have hno : ∀ target, e ≠ .link target := by
    rintro target rfl
    cases hlink
  obtain ⟨l, hs⟩ := he.status_child ht hno
  rw [Path.child_down] at hs
  rw [leadsToDirectory, FileTree.isDirectory?, FileTree.inquire, hs]

theorem mem_dirsIn (ht : t.Sound) :
    name ∈ v.dirsIn t here base names ↔ v.GoesInto t here base names name := by
  simp only [dirsIn, List.mem_map, List.mem_filter, Bool.and_eq_true, Bool.not_eq_true', Prod.exists,
    exists_and_right, exists_eq_right, ht.mem_entriesAt]
  constructor
  · rintro ⟨e, he, ⟨⟨hdir, hcontrol⟩, hkept⟩, hlink⟩
    rw [leadsToDirectory_of_holds ht he hlink] at hdir
    cases e with
    | directory => exact ⟨he, by simpa using hcontrol, hkept⟩
    | file bytes executable => cases hdir
    | link target => cases hlink
  · rintro ⟨he, hcontrol, hkept⟩
    refine ⟨.directory, he, ⟨⟨?_, by simpa using hcontrol⟩, hkept⟩, rfl⟩
    rw [leadsToDirectory_of_holds ht he rfl]
    rfl

theorem mem_listed (ht : t.Sound) {levels : Nat} :
    way ∈ v.listed t here base levels names ↔ ∃ more name, way = names ++ more ++ [name] ∧
      more.length < levels ∧ v.Reaches t here base names more ∧
        v.ListsIn t here base (names ++ more) name := by
  induction levels generalizing names with
  | zero => simp [listed]
  | succ levels ih =>
    rw [listed, List.mem_append, List.mem_map, List.mem_flatMap]
    constructor
    · rintro (⟨name, hname, rfl⟩ | ⟨name, hname, hway⟩)
      · exact ⟨[], name, by simp, by simp, trivial, by simpa using (mem_filesIn ht).1 hname⟩
      · obtain ⟨more, last, rfl, hlen, hreaches, hlists⟩ := ih.1 hway
        refine ⟨name :: more, last, by simp, by simpa using hlen, ⟨(mem_dirsIn ht).1 hname, hreaches⟩, ?_⟩
        simpa using hlists
    · rintro ⟨more, last, rfl, hlen, hreaches, hlists⟩
      cases more with
      | nil => exact .inl ⟨last, (mem_filesIn ht).2 (by simpa using hlists), by simp⟩
      | cons name more =>
        refine .inr ⟨name, (mem_dirsIn ht).2 hreaches.1, ih.2 ⟨more, last, by simp, ?_, hreaches.2, ?_⟩⟩
        · simpa using hlen
        · simpa using hlists

theorem status_of_reaches (ht : t.Sound) {l : Location}
    (hs : t.status here (base.down names) = .ok (l, .directory))
    (hreaches : v.Reaches t here base names more) :
    t.status here (base.down (names ++ more)) = .ok (l ++ more, .directory) := by
  induction more generalizing names l with
  | nil => simpa using hs
  | cons name more ih =>
    obtain ⟨l', hl', he⟩ := hreaches.1.directory
    cases hs.symm.trans hl'
    have hchild := FileTree.status_child hs (ht.isEntryName he) he (by simp)
    rw [Path.child_down] at hchild
    simpa using ih hchild hreaches.2

theorem isEntryName_of_reaches (ht : t.Sound) (hreaches : v.Reaches t here base names more) :
    ∀ name ∈ more, FileTree.IsEntryName name := by
  induction more generalizing names with
  | nil => simp
  | cons name more ih =>
    obtain ⟨l, -, he⟩ := hreaches.1.directory
    exact List.forall_mem_cons.2 ⟨ht.isEntryName he, ih hreaches.2⟩

/-- No way that lists a file is longer than the tree is deep. -/
theorem length_lt_of_reaches (ht : t.Sound) (hreaches : v.Reaches t here base [] names)
    (hlists : v.ListsIn t here base names name) : names.length < t.depth + 1 := by
  obtain ⟨e, he⟩ := hlists.entry
  obtain ⟨l, hl⟩ := FileTree.isDirectory?_eq_true_iff.1
    (FileTree.isDirectory?_of_down (p := base) he.isDirectory?)
  obtain ⟨l', hl', he⟩ := he
  have hbase : t.status here (base.down []) = .ok (l, .directory) := by simpa using hl
  have hway := status_of_reaches ht hbase hreaches
  rw [List.nil_append] at hway
  cases hway.symm.trans hl'
  have hlen := FileTree.length_le_depth (ht.get?_eq_some_iff.1 he)
  simp only [List.length_append, List.length_singleton] at hlen
  omega

theorem mem_walked (ht : t.Sound) {p : Path} :
    p ∈ v.walked t here base ↔ v.Lists t here base p := by
  simp only [walked, List.mem_map, mem_listed ht, List.nil_append]
  constructor
  · rintro ⟨way, ⟨names, name, rfl, -, hreaches, hlists⟩, rfl⟩
    exact ⟨names, name, rfl, hreaches, hlists⟩
  · rintro ⟨names, name, rfl, hreaches, hlists⟩
    exact ⟨_, ⟨names, name, rfl, length_lt_of_reaches ht hreaches hlists, hreaches, hlists⟩, rfl⟩

/-- The files of a directory come by name before those in its subdirectories, which come by name. -/
def Sooner : (x y : List String) → Prop
  | [a], [b] => a < b
  | [_], _ :: _ :: _ => True
  | a :: a' :: x, b :: b' :: y => a < b ∨ a = b ∧ Sooner (a' :: x) (b' :: y)
  | _, _ => False

theorem sooner_append (names : List String) {x y : List String} (hx : x ≠ []) (hy : y ≠ []) :
    Sooner (names ++ x) (names ++ y) ↔ Sooner x y := by
  induction names with
  | nil => rfl
  | cons name names ih =>
    rw [← ih]
    obtain ⟨a, x', hx'⟩ := List.exists_cons_of_ne_nil (List.append_ne_nil_of_right_ne_nil names hx)
    obtain ⟨b, y', hy'⟩ := List.exists_cons_of_ne_nil (List.append_ne_nil_of_right_ne_nil names hy)
    rw [List.cons_append, List.cons_append, hx', hy']
    exact (or_iff_right (String.lt_irrefl name)).trans (and_iff_right rfl)

theorem sooner_of_lt {a b : String} {x y : List String} (hab : a < b) (hx : x ≠ []) (hy : y ≠ []) :
    Sooner (a :: x) (b :: y) := by
  obtain ⟨a', x, rfl⟩ := List.exists_cons_of_ne_nil hx
  obtain ⟨b', y, rfl⟩ := List.exists_cons_of_ne_nil hy
  exact .inl hab

theorem sooner_of_deeper (a b : String) {y : List String} (hy : y ≠ []) : Sooner [a] (b :: y) := by
  obtain ⟨b', y, rfl⟩ := List.exists_cons_of_ne_nil hy
  trivial

theorem Sooner.asymm {x y : List String} (hxy : Sooner x y) : ¬ Sooner y x := by
  fun_induction Sooner x y with
  | case1 a b => exact String.lt_asymm hxy
  | case2 => exact id
  | case3 a a' x b b' y ih =>
    rintro (hlt | ⟨rfl, hyx⟩)
    · rcases hxy with hlt' | ⟨rfl, -⟩
      · exact String.lt_asymm hlt hlt'
      · exact String.lt_irrefl _ hlt
    · rcases hxy with hlt | ⟨-, hxy⟩
      · exact String.lt_irrefl _ hlt
      · exact ih hxy hyx
  | case4 => exact absurd hxy id

theorem dirsIn_sorted (ht : t.Sound) : (v.dirsIn t here base names).Pairwise (· < ·) :=
  List.pairwise_map.2 ((ht.entriesAt_sorted here _).filter _)

theorem filesIn_sorted (ht : t.Sound) : (v.filesIn t here base names).Pairwise (· < ·) :=
  List.pairwise_map.2 ((ht.entriesAt_sorted here _).filter _)

theorem listed_sorted (ht : t.Sound) (levels : Nat) :
    (v.listed t here base levels names).Pairwise Sooner := by
  induction levels generalizing names with
  | zero => exact List.Pairwise.nil
  | succ levels ih =>
    rw [listed]
    refine List.pairwise_append.2 ⟨?_, List.pairwise_flatMap.2 ⟨fun name _ => ih, ?_⟩, ?_⟩
    · refine List.pairwise_map.2 ((filesIn_sorted ht).imp fun hab => ?_)
      exact (sooner_append names (by simp) (by simp)).2 hab
    · refine (dirsIn_sorted ht).imp fun hab x hx y hy => ?_
      obtain ⟨more, last, rfl, -⟩ := (mem_listed ht).1 hx
      obtain ⟨more', last', rfl, -⟩ := (mem_listed ht).1 hy
      simp only [List.append_assoc, List.cons_append, List.nil_append]
      refine (sooner_append names (by simp) (by simp)).2 (sooner_of_lt hab ?_ ?_)
      · simp
      · simp
    · intro x hx y hy
      obtain ⟨a, -, rfl⟩ := List.mem_map.1 hx
      obtain ⟨b, -, hy⟩ := List.mem_flatMap.1 hy
      obtain ⟨more, last, rfl, -⟩ := (mem_listed ht).1 hy
      simp only [List.append_assoc, List.cons_append, List.nil_append]
      refine (sooner_append names (by simp) (by simp)).2 (sooner_of_deeper a b ?_)
      simp

/-- `p` comes before `q` in a walk of what lies below `base`. -/
def Precedes (base p q : Path) : Prop :=
  ∃ x y, p = base.down x ∧ q = base.down y ∧ Sooner x y

theorem walked_sorted (ht : t.Sound) : (v.walked t here base).Pairwise (Precedes base) :=
  List.pairwise_map.2 ((listed_sorted ht _).imp fun hxy => ⟨_, _, rfl, rfl, hxy⟩)

theorem Precedes.asymm {p q : Path} (hpq : Precedes base p q) : ¬ Precedes base q p := by
  obtain ⟨x, y, rfl, rfl, hxy⟩ := hpq
  rintro ⟨y', x', hy, hx, hyx⟩
  cases Path.down_injective base hy
  cases Path.down_injective base hx
  exact hxy.asymm hyx

theorem nodup_of_sorted {files : List Path} (hfiles : files.Pairwise (Precedes base)) :
    files.Nodup := by
  refine hfiles.imp fun hpq heq => ?_
  subst heq
  exact hpq.asymm hpq

/-- A walk lists just the files that no rule in force ignores, each once and in its order, and changes
nothing. -/
theorem walk_exact (v : Walker) (ht : t.Sound) (hbase : t.isDirectory? h.cwd base = .ok true)
    (hloads : v.Loads t h.cwd) : ∃ files, Finds h t (v.walk base) files ∧
      (∀ p, p ∈ files ↔ v.Lists t h.cwd base p) ∧ files.Nodup ∧ files.Pairwise (Precedes base) := by
  have hsorted : (v.walked t h.cwd base).Pairwise (Precedes base) := walked_sorted ht
  exact ⟨v.walked t h.cwd base, finds_walk hloads hbase, fun p => mem_walked ht,
    nodup_of_sorted hsorted, hsorted⟩

/-- The nearest of these directories that has a `.git`. -/
inductive NearestGit (t : FileTree) (here : Location) (ds : List Path) : Option Path → Prop where
  | found {git : Path} {front back : List Path} (hds : ds = front ++ git :: back)
    (hfront : ∀ d ∈ front, t.exists? here (d.child ".git") = .ok false)
    (hgit : t.exists? here (git.child ".git") = .ok true) : NearestGit t here ds (some git)
  | missing (hds : ∀ d ∈ ds, t.exists? here (d.child ".git") = .ok false) : NearestGit t here ds none

theorem nearestGit_of_findM? {w : World σ} {ds : List Path} {git : Option Path}
    (hfound : ((ds.findM? fun d => exists? (d.child ".git")).go h w).1 = .ok git) :
    NearestGit w.tree h.cwd ds git := by
  induction ds with
  | nil =>
    cases hfound
    exact .missing (by simp)
  | cons d ds ih =>
    rw [List.findM?, go_bind, exists?, go_askTree] at hfound
    cases hd : w.tree.exists? h.cwd (d.child ".git") with
    | error r =>
      rw [hd] at hfound
      cases hfound
    | ok b =>
      rw [hd] at hfound
      cases b with
      | true =>
        cases hfound
        have hfront : ∀ d ∈ ([] : List Path), w.tree.exists? h.cwd (d.child ".git") = .ok false := by simp
        exact .found rfl hfront hd
      | false =>
        cases ih hfound with
        | found hds hfront hgit =>
          exact .found (congrArg (d :: ·) hds) (List.forall_mem_cons.2 ⟨hd, hfront⟩) hgit
        | missing hds => exact .missing (List.forall_mem_cons.2 ⟨hd, hds⟩)

/-- A walk that starts at a root takes the nearest directory with a `.git` for the repository, and lists
just the files that no rule in force there ignores. -/
theorem walk_of_start {w : World σ} {root : Path} (hv : ((Walker.start root).go h w).1 = .ok v)
    (ht : w.tree.Sound) (hbase : w.tree.isDirectory? h.cwd base = .ok true) (hloads : v.Loads w.tree h.cwd) :
    v.root = root ∧ NearestGit w.tree h.cwd (root :: root.parents) v.gitRoot ∧
      ∃ files, Finds h w.tree (v.walk base) files ∧ (∀ p, p ∈ files ↔ v.Lists w.tree h.cwd base p) ∧
        files.Nodup ∧ files.Pairwise (Precedes base) := by
  have hsorted : (v.walked w.tree h.cwd base).Pairwise (Precedes base) := walked_sorted ht
  have hnearest : v.root = root ∧ NearestGit w.tree h.cwd (root :: root.parents) v.gitRoot := by
    rcases go_bind_cases (findGitRoot root) (fun git => (pure ⟨root, git⟩ : Run σ Walker)) h w with
      ⟨e, w', -, hgo⟩ | ⟨git, w', hgit, hgo⟩
    · rw [Walker.start, hgo] at hv
      cases hv
    · rw [Walker.start, hgo] at hv
      cases hv
      exact ⟨rfl, nearestGit_of_findM? (congrArg Prod.fst hgit)⟩
  exact ⟨hnearest.1, hnearest.2, v.walked w.tree h.cwd base, finds_walk hloads hbase, fun p => mem_walked ht,
    nodup_of_sorted hsorted, hsorted⟩

end Walker

namespace Sample

/-- A repository with rules at three levels; below `sub` are a link to a directory, one to a file, and
a directory that version control keeps to itself. -/
def grove : FileTree := ⟨[(["p"], .directory), (["p", ".git"], .directory),
  (["p", ".git", "info"], .directory),
  (["p", ".git", "info", "exclude"], .file "*.tmp\n".toUTF8 false),
  (["p", ".gitignore"], .file "*.log\nsub/gen/\n".toUTF8 false), (["p", "sub"], .directory),
  (["p", "sub", ".ignore"], .file "!keep.log\n".toUTF8 false),
  (["p", "sub", "keep.log"], .file .empty false), (["p", "sub", "x.log"], .file .empty false),
  (["p", "sub", "x.tmp"], .file .empty false), (["p", "sub", "a.py"], .file .empty false),
  (["p", "sub", "alias.py"], .link "a.py"), (["p", "sub", "also"], .link "deep"),
  (["p", "sub", "deep"], .directory), (["p", "sub", "deep", "b.py"], .file .empty false),
  (["p", "sub", "gen"], .directory), (["p", "sub", "gen", "c.py"], .file .empty false),
  (["p", "sub", ".svn"], .directory), (["p", "sub", ".svn", "d.py"], .file .empty false)]⟩

def groveWalker : Walker := ⟨⟨.root, ["p"]⟩, some ⟨.root, ["p"]⟩⟩

def groveSub : Path := ⟨.root, ["p", "sub"]⟩

theorem loads_grove : groveWalker.Loads grove [] := by
  refine Walker.loads_of_readable (by decide +kernel) (by decide +kernel) ?_
  rintro git ⟨⟩
  decide +kernel

end Sample

namespace Walker

open Sample in
theorem walk_exact_grove : grove.Sound ∧ grove.isDirectory? [] groveSub = .ok true ∧
    groveWalker.Loads grove [] ∧ ∃ files,
      Finds (Script.host [] [] false false) grove (groveWalker.walk groveSub) files ∧
      groveSub.down ["keep.log"] ∈ files ∧ groveSub.down ["deep", "b.py"] ∈ files ∧
      groveSub.down ["x.tmp"] ∉ files ∧ groveSub.down ["gen", "c.py"] ∉ files ∧
      groveSub.down ["also", "b.py"] ∉ files ∧ files.Pairwise (Precedes groveSub) := by
  have hsound : grove.Sound := by decide +kernel
  have hdir : grove.isDirectory? [] groveSub = .ok true := by decide +kernel
  obtain ⟨files, hfinds, hmem, -, horder⟩ :=
    walk_exact (h := Script.host [] [] false false) groveWalker hsound hdir loads_grove
  have hsub : grove.status [] (groveSub.down []) = .ok (["p", "sub"], .directory) := by decide +kernel
  have hdeep : groveWalker.GoesInto grove [] groveSub [] "deep" :=
    ⟨⟨_, hsub, by decide +kernel⟩, by decide, by decide +kernel⟩
  have hway {way : List String} (hlists : groveWalker.Lists grove [] groveSub (groveSub.down way)) :
      groveWalker.Reaches grove [] groveSub [] way.dropLast ∧
        groveWalker.ListsIn grove [] groveSub way.dropLast (way.getLast?.getD "") := by
    obtain ⟨names, name, hp, hreaches, hlists⟩ := hlists
    obtain rfl := Path.down_injective _ hp
    simpa using ⟨hreaches, hlists⟩
  refine ⟨hsound, hdir, loads_grove, files, hfinds, (hmem _).2 ?_, (hmem _).2 ?_, fun hp => ?_,
    fun hp => ?_, fun hp => ?_, horder⟩
  · refine ⟨[], "keep.log", rfl, trivial, ⟨.file .empty false, _, hsub, ?_⟩, ?_, ?_⟩
    all_goals decide +kernel
  · refine ⟨["deep"], "b.py", rfl, ⟨hdeep, trivial⟩,
      ⟨.file .empty false, ["p", "sub", "deep"], ?_⟩, ?_, ?_⟩
    all_goals decide +kernel
  · have hkept := (hway ((hmem _).1 hp)).2.kept
    revert hkept
    decide +kernel
  · have hkept := (hway ((hmem _).1 hp)).1.1.kept
    revert hkept
    decide +kernel
  · obtain ⟨l, hl, he⟩ := (hway ((hmem _).1 hp)).1.1.directory
    cases hsub.symm.trans hl
    revert he
    decide +kernel

end Walker

end LintRunner
