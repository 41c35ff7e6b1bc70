import LintRunner.Proofs.FileTree.Sound
import LintRunner.Proofs.Run.Finds

/-! The rules in force in a directory, read off the tree: those that the base of a walk inherits,
released for it, and then those of each directory on the way down. Where every ignore file loads,
these are the rules that a walk finds. -/

namespace LintRunner

open Run

variable {σ : Type} {h : Host σ} {t : FileTree} {here : Location}

namespace IgnoreFile

variable {source directory : Path}

/-- The patterns of the lines that hold one. -/
def patternsOf (lines : List String) : List Pattern :=
  lines.filterMap fun line => (Pattern.read line).toOption

/-- The rules in `source`; none if there are none. -/
def rulesAt? (t : FileTree) (here : Location) (source directory : Path) : Option IgnoreFile :=
  match t.status here source with
  | .ok (_, .file bytes _) =>
    let patterns := patternsOf (textOf bytes)
    if patterns.any Pattern.isActive then some ⟨directory, source, patterns⟩ else none
  | _ => none

/-- Reading goes on after the line: it is a pattern, or malformed. -/
def Readable (line : String) : Prop := ∀ e, Pattern.read line ≠ .error (.badSet e)

instance : DecidablePred Readable := fun line =>
  match hp : Pattern.read line with
  | .error (.badSet e) => isFalse fun hline => hline e hp
  | .error .malformed => isTrue fun e he => by cases hp.symm.trans he
  | .ok _ => isTrue fun e he => by cases hp.symm.trans he

def linesOf : Entry → List String
  | .file bytes _ => textOf bytes
  | _ => []

/-- Whether there is a file can be told, and if so all its lines can be read. -/
def Loads (t : FileTree) (here : Location) (source : Path) : Prop :=
  match t.status here source with
  | .ok (_, .file bytes _) => ∀ line ∈ textOf bytes, Readable line
  | .ok _ => True
  | .error r => FileTree.settles r = true

theorem finds_readLines (source : Path) {lines : List String}
    (hlines : ∀ line ∈ lines, Readable line) :
    Finds h t (readLines source lines) (patternsOf lines) := by
  induction lines with
  | nil => exact finds_pure _
  | cons line rest ih =>
    have hrest := ih fun line hl => hlines line (by simp [hl])
    rw [patternsOf, List.filterMap_cons, ← patternsOf]
    unfold readLines
    split
    · next p hp =>
      rw [hp]
      exact hrest.bind (finds_pure _)
    · next hp =>
      rw [hp]
      exact (finds_log _ _).bind hrest
    · next e hp => exact absurd hp (hlines line List.mem_cons_self e)

theorem finds_load {bytes : ByteArray} {executable : Bool} {l : Location}
    (hfile : t.status h.cwd source = .ok (l, .file bytes executable))
    (hlines : ∀ line ∈ textOf bytes, Readable line) :
    Finds h t (load source directory) (rulesAt? t h.cwd source directory) := by
  have hbytes : Finds h t (bytesAt source) bytes :=
    finds_askTree (by simp [FileTree.bytesAt, hfile, bind, Except.bind, pure, Except.pure])
  refine hbytes.attempt.bind ((finds_readLines source hlines).bind ?_)
  rw [rulesAt?, hfile]
  exact finds_pure _

theorem finds_loadIfFile (hloads : Loads t h.cwd source) (directory : Path) :
    Finds h t (Walker.loadIfFile source directory) (rulesAt? t h.cwd source directory).toList := by
  have hno (hask : t.isFile? h.cwd source = .ok false)
      (hnone : rulesAt? t h.cwd source directory = none) : Finds h t
        (Walker.loadIfFile source directory) (rulesAt? t h.cwd source directory).toList := by
    rw [hnone]
    exact (finds_askTree hask).bind (finds_pure _)
  unfold Loads at hloads
  split at hloads
  · next l bytes executable hfile =>
    have hask := FileTree.isFile?_eq_true_iff.2 ⟨l, bytes, executable, hfile⟩
    exact (finds_askTree hask).bind ((finds_load hfile hloads).bind (finds_pure _))
  · next le hother hs =>
    obtain ⟨l, e⟩ := le
    cases e with
    | file bytes executable => exact absurd rfl (hother l bytes executable)
    | directory => exact hno (by rw [FileTree.isFile?, FileTree.inquire, hs]; rfl) (by rw [rulesAt?, hs])
    | link target => exact hno (by rw [FileTree.isFile?, FileTree.inquire, hs]; rfl) (by rw [rulesAt?, hs])
  · next r hs =>
    exact hno (by simp [FileTree.isFile?, FileTree.inquire, hs, hloads]) (by rw [rulesAt?, hs])

theorem directory_of_mem_rulesAt? {f : IgnoreFile} (hf : f ∈ rulesAt? t here source directory) :
    f.directory = directory := by
  unfold rulesAt? at hf
  split at hf
  · obtain ⟨-, hf⟩ := Option.ite_none_right_eq_some.1 hf
    rw [← Option.some.inj hf]
  · cases hf

theorem released_eq_self_iff {f : IgnoreFile} {start : Path} :
    f.released start = f ↔ f.keepsAll start = true := by
  rw [keepsAll, List.all_eq_true, ← List.filter_eq_self]
  constructor
  · exact congrArg IgnoreFile.patterns
  · intro hall
    rw [released, hall]

theorem finds_release (f : IgnoreFile) (start : Path) :
    Finds h t (f.release start) (f.released start) := by
  unfold release
  split
  · next hkeeps =>
    rw [released_eq_self_iff.2 hkeeps]
    exact finds_pure _
  · exact (finds_debug _).bind (finds_pure _)

end IgnoreFile

namespace Walker

open IgnoreFile

variable {v : Walker} {base directory : Path} {names : List String} {name : String}

/-- The rules kept in the directory itself. -/
def own (v : Walker) (t : FileTree) (here : Location) (directory : Path) : List IgnoreFile :=
  (if v.gitRoot.isSome then (rulesAt? t here (directory.child ".gitignore") directory).toList
    else []) ++ (rulesAt? t here (directory.child ".ignore") directory).toList

/-- The directory from which on rules count. -/
def top (v : Walker) : Path := v.gitRoot.getD v.root

def excludeFile (git : Path) : Path := ((git.child ".git").child "info").child "exclude"

/-- The rules kept with the repository. -/
def excludes (v : Walker) (t : FileTree) (here : Location) : List IgnoreFile :=
  match v.gitRoot with
  | some git => (rulesAt? t here (excludeFile git) git).toList
  | none => []

/-- The rules that `base` inherits from above. -/
def inheritedBy (v : Walker) (t : FileTree) (here : Location) (base : Path) : List IgnoreFile :=
  v.excludes t here ++
  match base.parent.relativeTo? v.top with
  | some below => (steps v.top below.parts).flatMap (v.own t here)
  | none => []

/-- What counts in the directory that `names` lead to from `base`, the lowest precedence first. -/
def inForce (v : Walker) (t : FileTree) (here : Location) (base : Path) (names : List String) :
    List IgnoreFile :=
  (v.inheritedBy t here base).map (·.released base) ++ (steps base names).flatMap (v.own t here)

/-- All ignore files load. -/
structure Loads (v : Walker) (t : FileTree) (here : Location) : Prop where
  gitignore : v.gitRoot.isSome = true → ∀ d, t.isDirectory? here d = .ok true →
    IgnoreFile.Loads t here (d.child ".gitignore")
  ignore : ∀ d, t.isDirectory? here d = .ok true → IgnoreFile.Loads t here (d.child ".ignore")
  exclude : ∀ git, v.gitRoot = some git → IgnoreFile.Loads t here (excludeFile git)

/-- Where all lines of all files can be read and no name is too long, so do the ignore files. -/
theorem loads_of_readable (ht : t.ShortLinks)
    (hfiles : ∀ x ∈ t.entries, ∀ line ∈ linesOf x.2, Readable line)
    (hgit : ∀ git, v.gitRoot = some git → ∀ name ∈ git.parts, name.utf8ByteSize ≤ FileTree.longestName) :
    v.Loads t here := by
  have hsource {source : Path} (hsettles : ∀ r, t.status here source = .error r →
      FileTree.settles r = true) : IgnoreFile.Loads t here source := by
    unfold IgnoreFile.Loads
    split
    · next l bytes executable hs =>
      obtain ⟨-, -, he⟩ := FileTree.status_eq_ok_iff.1 hs
      unfold FileTree.get? at he
      split at he
      · cases he
      · exact hfiles _ (FileTree.mem_entries_of_lookup he)
    · trivial
    · next r hs => exact hsettles r hs
  refine ⟨fun _ d hd => hsource fun r => ht.status_child_settles hd (by decide),
    fun d hd => hsource fun r => ht.status_child_settles hd (by decide),
    fun git hg => hsource fun r => ht.status_settles ?_⟩
  intro name hname
  simp only [excludeFile, Path.child, List.append_assoc, List.mem_append, List.mem_cons,
    List.not_mem_nil, or_false] at hname
  rcases hname with hname | rfl | rfl | rfl
  · exact hgit git hg name hname
  all_goals decide

theorem mem_steps {top : Path} :
    directory ∈ steps top names ↔ ∃ front back, names = front ++ back ∧ directory = top.down front := by
  induction names generalizing top with
  | nil =>
    simp only [steps, List.mem_singleton]
    constructor
    · rintro rfl
      exact ⟨[], [], rfl, by simp⟩
    · rintro ⟨front, back, heq, rfl⟩
      simp [(List.append_eq_nil_iff.1 heq.symm).1]
  | cons name names ih =>
    simp only [steps, List.mem_cons, ih]
    constructor
    · rintro (rfl | ⟨front, back, rfl, rfl⟩)
      · exact ⟨[], name :: names, rfl, by simp⟩
      · exact ⟨name :: front, back, rfl, by simp [Path.child_eq_down]⟩
    · rintro ⟨front, back, heq, rfl⟩
      cases front with
      | nil => exact .inl (by simp)
      | cons n front =>
        obtain ⟨rfl, rfl⟩ := List.cons_eq_cons.1 heq
        exact .inr ⟨front, back, rfl, by simp [Path.child_eq_down]⟩

theorem steps_append (top : Path) (names : List String) (name : String) (more : List String) :
    steps top (names ++ name :: more) = steps top names ++ steps (top.down (names ++ [name])) more := by
  induction names generalizing top with
  | nil => simp [steps, Path.child_eq_down]
  | cons n names ih => simp [steps, ih, Path.child_eq_down]

theorem inForce_append (v : Walker) (t : FileTree) (here : Location) (base : Path)
    (names : List String) (name : String) (more : List String) :
    v.inForce t here base (names ++ name :: more) = v.inForce t here base names ++
      (steps (base.down (names ++ [name])) more).flatMap (v.own t here) := by
  simp [inForce, steps_append]

theorem inForce_child (v : Walker) (t : FileTree) (here : Location) (base : Path)
    (names : List String) (name : String) : v.inForce t here base (names ++ [name]) =
      v.inForce t here base names ++ v.own t here (base.down (names ++ [name])) := by
  simp [inForce_append, steps]

theorem directory_of_mem_own {f : IgnoreFile} (hf : f ∈ v.own t here directory) :
    f.directory = directory := by
  unfold own at hf
  rcases List.mem_append.1 hf with hf | hf
  · split at hf
    · exact directory_of_mem_rulesAt? (Option.mem_toList.1 hf)
    · cases hf
  · exact directory_of_mem_rulesAt? (Option.mem_toList.1 hf)

theorem finds_rulesIn_of_loads
    (hgitignore : v.gitRoot.isSome = true → IgnoreFile.Loads t h.cwd (directory.child ".gitignore"))
    (hignore : IgnoreFile.Loads t h.cwd (directory.child ".ignore")) :
    Finds h t (v.rulesIn directory) (v.own t h.cwd directory) := by
  have hignore := finds_loadIfFile hignore directory
  unfold rulesIn own
  split
  · next hgit =>
    exact (finds_loadIfFile (hgitignore hgit) directory).bind (hignore.bind (finds_pure _))
  · exact (finds_pure _).bind (hignore.bind (finds_pure _))

theorem finds_rulesIn (hloads : v.Loads t h.cwd) (hd : t.isDirectory? h.cwd directory = .ok true) :
    Finds h t (v.rulesIn directory) (v.own t h.cwd directory) :=
  finds_rulesIn_of_loads (fun hgit => hloads.gitignore hgit directory hd) (hloads.ignore directory hd)

theorem finds_inherited_of_steps (hloads : v.Loads t h.cwd)
    (hsteps : ∀ below, base.parent.relativeTo? v.top = some below →
      ∀ d ∈ steps v.top below.parts, Finds h t (v.rulesIn d) (v.own t h.cwd d)) :
    Finds h t (v.inherited base) (v.inheritedBy t h.cwd base) := by
  have hsome {git : Path} (hgit : v.gitRoot = some git) :
      Finds h t (loadIfFile (excludeFile git) git) (v.excludes t h.cwd) := by
    rw [excludes, hgit]
    exact finds_loadIfFile (hloads.exclude git hgit) git
  have hnone (hgit : v.gitRoot = none) : Finds h t (pure []) (v.excludes t h.cwd) := by
    rw [excludes, hgit]
    exact finds_pure []
  have htop : v.gitRoot.getD v.root = v.top := rfl
  unfold inherited inheritedBy
  dsimp only
  rw [htop]
  cases hrel : base.parent.relativeTo? v.top with
  | none =>
    rw [List.append_nil]
    split
    · next git hgit => exact (hsome hgit).bind (finds_pure _)
    · next hgit => exact (hnone hgit).bind (finds_pure _)
  | some below =>
    have hbelow := Finds.mapM (hsteps below hrel)
    dsimp only
    rw [List.flatMap_def]
    split
    · next git hgit => exact (hsome hgit).bind (hbelow.bind (finds_pure _))
    · next hgit => exact (hnone hgit).bind (hbelow.bind (finds_pure _))

/-- Whatever a directory inherits rules from is above it. -/
theorem exists_parent_eq_down {below : Path} (hrel : base.parent.relativeTo? v.top = some below)
    (hd : directory ∈ steps v.top below.parts) : ∃ more, base.parent = directory.down more := by
  obtain ⟨front, back, hparts, rfl⟩ := mem_steps.1 hd
  obtain ⟨-, heq⟩ := Path.relativeTo?_eq_some_iff_down.1 hrel
  rw [hparts, ← Path.down_down] at heq
  exact ⟨back, heq⟩

theorem finds_inherited (hloads : v.Loads t h.cwd) (hbase : t.isDirectory? h.cwd base = .ok true) :
    Finds h t (v.inherited base) (v.inheritedBy t h.cwd base) := by
  refine finds_inherited_of_steps hloads fun below hrel d hd => ?_
  obtain ⟨more, heq⟩ := exists_parent_eq_down hrel hd
  have hparent := FileTree.isDirectory?_parent hbase
  rw [heq] at hparent
  exact finds_rulesIn hloads (FileTree.isDirectory?_of_down hparent)

end Walker

end LintRunner
