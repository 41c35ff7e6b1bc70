import LintRunner.Proofs.Filter.Kinds
import LintRunner.Proofs.Pass.Attempts
import LintRunner.Proofs.Pass.Targets
import LintRunner.Proofs.Path.Below
import LintRunner.Proofs.Path.Read

/-! What the path arguments of a command stand for. Each style names its items, either by their whole
paths or by the way to them from where the command runs; and where a command runs in the project or
in the directory of its target, there always is such a way. -/

namespace LintRunner

open Run

namespace Filter

variable {f : Filter} {scope : Scope} {files : List Path} {t : Target} {p directory : Path}

namespace PathStyle

def namesDirectories (s : PathStyle) : Bool := s == dir || s == absoluteDir

def isRelative (s : PathStyle) : Bool := s == file || s == dir

end PathStyle

variable (f) in
/-- What the path arguments for a target stand for, style by style and scope by scope. -/
inductive IsItem (scope : Scope) (t : Target) : Path → Prop
  | file (hstyle : f.params.pathArgs.namesFiles = true) (hscope : scope = .files) :
      IsItem scope t t.path
  | member {p : Path} (hstyle : f.params.pathArgs.namesFiles = true) (hscope : scope ≠ .files)
      (hp : p ∈ t.files) (hcovers : f.covers p = true) : IsItem scope t p
  | directory (hstyle : f.params.pathArgs.namesDirectories = true) (hscope : scope = .dirs) :
      IsItem scope t t.path
  | ofFile (hstyle : f.params.pathArgs.namesDirectories = true) (hscope : scope = .files) :
      IsItem scope t t.path.parent
  | ofMember {p : Path} (hstyle : f.params.pathArgs.namesDirectories = true) (hscope : scope = .root)
      (hp : p ∈ t.files) (hcovers : f.covers p = true) : IsItem scope t p.parent

/-- As a command that runs in `directory` reads it, `arg` is the way to `p`. -/
def LeadsTo (directory : Path) (arg : String) (p : Path) : Prop :=
  (Path.ofString arg).anchor = .relative ∧ directory / Path.ofString arg = p

variable (f) in
/-- How `items` can appear on a command line for `directory`, or fail to. -/
inductive Renders (directory : Path) (items : List Path) : Except FilterError (List String) → Prop
  | none (hstyle : f.params.pathArgs = .none) : Renders directory items (.ok [])
  | dot (hstyle : f.params.pathArgs = .dot) : Renders directory items (.ok ["."])
  | absolute (hstyle : f.params.pathArgs.isAbsolute = true) :
      Renders directory items (.ok (items.map fun item => (f.root / item).text))
  | relative {args : List String} (hstyle : f.params.pathArgs.isRelative = true)
      (hinside : ∀ item ∈ items, (f.root / item).LiesIn directory)
      (hargs : List.Forall₂ (fun item arg => LeadsTo directory arg (f.root / item)) items args) :
      Renders directory items (.ok args)
  | outside {front back : List Path} {item : Path} (hstyle : f.params.pathArgs.isRelative = true)
      (hitems : items = front ++ item :: back)
      (hfront : ∀ q ∈ front, (f.root / q).LiesIn directory)
      (houtside : ¬ (f.root / item).LiesIn directory) :
      Renders directory items (.error (.outsideDirectory item directory))

theorem PathStyle.not_namesFiles {s : PathStyle} (hs : s.namesDirectories = true) :
    s.namesFiles = false := by
  cases s <;> first | rfl | cases hs

theorem IsItem.style (hitem : f.IsItem scope t p) :
    f.params.pathArgs.namesFiles = true ∨ f.params.pathArgs.namesDirectories = true := by
  cases hitem with
  | file hstyle _ => exact .inl hstyle
  | member hstyle _ _ _ => exact .inl hstyle
  | directory hstyle _ => exact .inr hstyle
  | ofFile hstyle _ => exact .inr hstyle
  | ofMember hstyle _ _ _ => exact .inr hstyle

theorem itemsFor_of_namesDirectories (hstyle : f.params.pathArgs.namesDirectories = true) :
    f.itemsFor t.path t.files scope = match scope with
      | .files => [t.path.parent]
      | .dirs => [t.path]
      | .root => Path.sortedSet ((Path.sorted (t.files.filter f.covers)).map (·.parent)) := by
  cases scope <;> simp [itemsFor, PathStyle.not_namesFiles hstyle, Path.sortedSet, Path.insert]

theorem itemsFor_of_namesFiles (hstyle : f.params.pathArgs.namesFiles = true) :
    f.itemsFor t.path t.files scope = match scope with
      | .files => [t.path]
      | _ => Path.sorted (t.files.filter f.covers) := by
  cases scope <;> simp [itemsFor, hstyle]

theorem mem_itemsFor (hstyle : f.params.pathArgs.namesFiles = true ∨
    f.params.pathArgs.namesDirectories = true) :
    p ∈ f.itemsFor t.path t.files scope ↔ f.IsItem scope t p := by
  have hstyles (hd : f.params.pathArgs.namesDirectories = true) :
      f.params.pathArgs.namesFiles ≠ true := by simp [PathStyle.not_namesFiles hd]
  rcases hstyle with hfiles | hdirs
  · rw [itemsFor_of_namesFiles hfiles]
    constructor
    · intro hp
      cases scope with
      | files =>
        rw [List.mem_singleton.1 hp]
        exact .file hfiles rfl
      | _ =>
        obtain ⟨hp, hcovers⟩ := List.mem_filter.1 (Path.mem_sorted.1 hp)
        exact .member hfiles (by simp) hp hcovers
    · rintro (⟨-, rfl⟩ | ⟨-, hscope, hp, hcovers⟩ | ⟨hd, -⟩ | ⟨hd, -⟩ | ⟨hd, -, -, -⟩)
      · exact List.mem_singleton_self _
      · have hmem := Path.mem_sorted.2 (List.mem_filter.2 ⟨hp, hcovers⟩)
        cases scope with
        | files => exact absurd rfl hscope
        | _ => exact hmem
      · exact absurd hfiles (hstyles hd)
      · exact absurd hfiles (hstyles hd)
      · exact absurd hfiles (hstyles hd)
  · rw [itemsFor_of_namesDirectories hdirs]
    constructor
    · intro hp
      cases scope with
      | files =>
        rw [List.mem_singleton.1 hp]
        exact .ofFile hdirs rfl
      | dirs =>
        rw [List.mem_singleton.1 hp]
        exact .directory hdirs rfl
      | root =>
        obtain ⟨q, hq, rfl⟩ := List.mem_map.1 (Path.mem_sortedSet.1 hp)
        obtain ⟨hq, hcovers⟩ := List.mem_filter.1 (Path.mem_sorted.1 hq)
        exact .ofMember hdirs rfl hq hcovers
    · rintro (⟨hfiles, -⟩ | ⟨hfiles, -, -, -⟩ | ⟨-, rfl⟩ | ⟨-, rfl⟩ | ⟨-, rfl, hp, hcovers⟩)
      · exact absurd hfiles (hstyles hdirs)
      · exact absurd hfiles (hstyles hdirs)
      · exact List.mem_singleton_self _
      · exact List.mem_singleton_self _
      · exact Path.mem_sortedSet.2 (List.mem_map_of_mem
          (Path.mem_sorted.2 (List.mem_filter.2 ⟨hp, hcovers⟩)))

theorem ascending_itemsFor (hstyle : f.params.pathArgs.namesFiles = true ∨
    f.params.pathArgs.namesDirectories = true) (hnodup : files.Nodup)
    (hrel : ∀ p ∈ files, p.anchor = .relative)
    (ht : t ∈ Target.pathMap scope files (Group.make files)) :
    Path.Ascending (f.itemsFor t.path t.files scope) := by
  have hsolo (q : Path) : Path.Ascending [q] := List.pairwise_singleton _ _
  have hmembers : ∀ p ∈ t.files.filter f.covers, p.anchor = .relative := fun p hp =>
    hrel p (Target.files_subset ht (List.mem_filter.1 hp).1)
  have hsorted := Path.ascending_sorted hmembers ((Target.nodup_files ht hnodup hrel).filter _)
  rcases hstyle with hfiles | hdirs
  · rw [itemsFor_of_namesFiles hfiles]
    cases scope with
    | files => exact hsolo t.path
    | _ => exact hsorted
  · rw [itemsFor_of_namesDirectories hdirs]
    cases scope with
    | files => exact hsolo t.path.parent
    | dirs => exact hsolo t.path
    | root =>
      apply Path.ascending_sortedSet
      intro q hq
      obtain ⟨p, hp, rfl⟩ := List.mem_map.1 hq
      exact hmembers p (Path.mem_sorted.1 hp)

theorem spelled_of_isItem (hfiles : ∀ p ∈ files, p.Spelled)
    (ht : t ∈ Target.pathMap scope files (Group.make files)) (hitem : f.IsItem scope t p) :
    p.Spelled := by
  have hpath : t.path.Spelled := by
    cases scope with
    | root =>
      rw [List.mem_singleton.1 ht]
      exact nofun
    | dirs =>
      obtain ⟨g, hg, rfl⟩ := List.mem_map.1 ht
      obtain ⟨q, hq, rfl⟩ := Group.mem_make.1 hg
      exact (hfiles q hq).parent
    | files =>
      obtain ⟨q, hq, rfl⟩ := List.mem_map.1 ht
      exact hfiles q hq
  cases hitem with
  | file _ _ => exact hpath
  | member _ _ hp _ => exact hfiles p (Target.files_subset ht hp)
  | directory _ _ => exact hpath
  | ofFile _ _ => exact hpath.parent
  | ofMember _ _ hp _ => exact (hfiles _ (Target.files_subset ht hp)).parent

theorem liesIn_of_relativeText {arg : String} (ha : f.relativeText directory p = .ok arg) :
    (f.root / p).LiesIn directory := by
  unfold relativeText at ha
  split at ha
  · next way hway => exact .of_relativeTo? hway
  · cases ha

theorem of_relativeText_error {e : FilterError} (he : f.relativeText directory p = .error e) :
    e = .outsideDirectory p directory ∧ ¬ (f.root / p).LiesIn directory := by
  unfold relativeText at he
  split at he
  · cases he
  · next hway =>
    cases he
    exact ⟨rfl, Path.not_liesIn_of_relativeTo? hway⟩

theorem leadsTo_of_relativeText {arg : String} (hstyle : f.params.pathArgs.isAbsolute = false)
    (hroot : f.root.Spelled) (hp : p.Spelled) (ha : f.relativeText directory p = .ok arg) :
    LeadsTo directory arg (f.root / p) := by
  have hnames := names_of_relativeText hstyle ha
  rw [Names, if_neg (by simp [hstyle])] at hnames
  obtain ⟨way, hrel, hjoin, rfl⟩ := hnames
  have hway : way.Spelled := .of_join hrel (hjoin ▸ hroot.join hp)
  rw [LeadsTo, hway.ofString_text]
  exact ⟨hrel, hjoin⟩

theorem renders_mapM {items : List Path} (hstyle : f.params.pathArgs.isRelative = true)
    (hroot : f.root.Spelled) (hitems : ∀ item ∈ items, item.Spelled) :
    f.Renders directory items (items.mapM (f.relativeText directory)) := by
  have habsolute : f.params.pathArgs.isAbsolute = false := by
    cases hs : f.params.pathArgs <;> rw [hs] at hstyle <;> first | rfl | cases hstyle
  cases hm : items.mapM (f.relativeText directory) with
  | error e =>
    obtain ⟨front, item, back, hsplit, hfront, he⟩ := of_mapM_error hm
    obtain ⟨rfl, hout⟩ := of_relativeText_error he
    refine .outside hstyle hsplit (fun q hq => ?_) hout
    obtain ⟨arg, ha⟩ := hfront q hq
    exact liesIn_of_relativeText ha
  | ok args =>
    have hall := forall₂_of_mapM_ok (R := fun item arg => f.relativeText directory item = .ok arg)
      (fun _ _ => id) hm
    have hinside := hall.imp fun item arg ha => And.intro (liesIn_of_relativeText ha) ha
    have hspelled := (List.forall₂_and_left _ _).2 ⟨hitems, hall⟩
    exact .relative hstyle ((List.forall₂_and_left _ _).1 hinside).1
      (hspelled.imp fun item arg h => leadsTo_of_relativeText habsolute hroot h.1 h.2)

theorem renders_renderPaths (hroot : f.root.Spelled)
    (hitems : ∀ item ∈ f.itemsFor t.path t.files scope, item.Spelled) :
    f.Renders directory (f.itemsFor t.path t.files scope)
      (f.renderPaths t.path t.files scope directory) := by
  unfold renderPaths
  split
  · next hs => exact .none hs
  · next hs => exact .dot hs
  · next hnone hdot =>
    split
    · next habsolute => exact .absolute habsolute
    · next habsolute =>
      refine renders_mapM ?_ hroot hitems
      cases hs : f.params.pathArgs with
      | none => exact absurd hs hnone
      | dot => exact absurd hs hdot
      | file => rfl
      | dir => rfl
      | absoluteFile => simp [hs, PathStyle.isAbsolute] at habsolute
      | absoluteDir => simp [hs, PathStyle.isAbsolute] at habsolute

theorem exists_down_of_isItem (hrel : ∀ p ∈ files, p.anchor = .relative)
    (ht : t ∈ Target.pathMap scope files (Group.make files)) (hitem : f.IsItem scope t p) :
    ∃ names, p = (if scope = .files then t.path.parent else t.path).down names := by
  cases hitem with
  | file _ hscope =>
    rw [if_pos hscope]
    exact t.path.exists_eq_parent_down
  | member _ hscope hp _ =>
    rw [if_neg hscope, Target.path_eq_pathOf ht hp]
    cases scope with
    | files => exact absurd rfl hscope
    | dirs => exact p.exists_eq_parent_down
    | root =>
      exact ⟨p.parts, by
        simp [Target.pathOf, Path.here, Path.down, ← hrel p (Target.files_subset ht hp)]⟩
  | directory _ hscope => exact ⟨[], by simp [hscope]⟩
  | ofFile _ hscope => exact ⟨[], by simp [hscope]⟩
  | @ofMember q _ hscope hq _ =>
    subst hscope
    rw [if_neg (by simp), Target.path_eq_pathOf ht hq]
    exact ⟨q.parent.parts, by
      simp [Target.pathOf, Path.here, Path.down, Path.parent, ← hrel q (Target.files_subset ht hq)]⟩

/-- In the project, and in the directory of the target, every item lies below. -/
theorem exists_workingDirFor (hplace : f.params.workingDir = .root ∨ f.params.workingDir = .dir)
    (hrel : ∀ p ∈ files, p.anchor = .relative)
    (ht : t ∈ Target.pathMap scope files (Group.make files)) :
    ∃ directory, f.workingDirFor t.path scope = .ok directory ∧
      ∀ item, f.IsItem scope t item → (f.root / item).LiesIn directory := by
  have hpath : (if scope = .files then t.path.parent else t.path).anchor = .relative := by
    split <;> exact Target.relative_path ht hrel
  rcases hplace with hroot | hdir
  · refine ⟨f.root, by rw [workingDirFor, hroot], fun item hitem => ?_⟩
    obtain ⟨names, rfl⟩ := exists_down_of_isItem hrel ht hitem
    rw [Path.join_down hpath, Path.join_of_relative hpath]
    exact Path.liesIn_iff_exists_down.2 ⟨_, Path.down_down _ _ _⟩
  · refine ⟨_, by rw [workingDirFor, hdir], fun item hitem => ?_⟩
    obtain ⟨names, rfl⟩ := exists_down_of_isItem hrel ht hitem
    exact Path.liesIn_iff_exists_down.2 ⟨names, Path.join_down hpath⟩

theorem Renders.ok_of_inside {items : List Path} {outcome : Except FilterError (List String)}
    (hrenders : f.Renders directory items outcome)
    (hinside : ∀ item ∈ items, (f.root / item).LiesIn directory) : ∃ args, outcome = .ok args := by
  cases hrenders with
  | outside _ hitems _ houtside => exact absurd (hinside _ (by simp [hitems])) houtside
  | _ => exact ⟨_, rfl⟩

/-- The path arguments of a command stand for its items, in order: by the style, they are the items'
whole paths, or the ways to them from where it runs; which fails just where an item lies elsewhere, and
never in the project or in the directory of the target. -/
theorem renderPaths_renders (hroot : f.root.Spelled) (hnodup : files.Nodup)
    (hfiles : ∀ p ∈ files, p.anchor = .relative ∧ p.Spelled)
    (ht : t ∈ Target.pathMap scope files (Group.make files)) :
    ∃ items, Path.Ascending items ∧ (∀ p, p ∈ items ↔ f.IsItem scope t p) ∧
      (∀ directory, f.Renders directory items (f.renderPaths t.path t.files scope directory)) ∧
      (f.params.workingDir = .root ∨ f.params.workingDir = .dir →
        ∃ directory args, f.workingDirFor t.path scope = .ok directory ∧
          f.renderPaths t.path t.files scope directory = .ok args) := by
  have hrel : ∀ p ∈ files, p.anchor = .relative := fun p hp => (hfiles p hp).1
  have hspelled : ∀ p ∈ files, p.Spelled := fun p hp => (hfiles p hp).2
  obtain ⟨items, hascending, hmem, hrenders⟩ : ∃ items, Path.Ascending items ∧
      (∀ p, p ∈ items ↔ f.IsItem scope t p) ∧
      ∀ directory, f.Renders directory items (f.renderPaths t.path t.files scope directory) := by
    by_cases hstyle : f.params.pathArgs.namesFiles = true ∨ f.params.pathArgs.namesDirectories = true
    · refine ⟨_, ascending_itemsFor hstyle hnodup hrel ht, fun p => mem_itemsFor hstyle, ?_⟩
      intro directory
      exact renders_renderPaths hroot fun item hi =>
        spelled_of_isItem hspelled ht ((mem_itemsFor hstyle).1 hi)
    · refine ⟨[], .nil, fun p => ⟨nofun, fun hitem => absurd hitem.style hstyle⟩, ?_⟩
      intro directory
      cases hs : f.params.pathArgs with
      | none => rw [renderPaths, hs]; exact .none hs
      | dot => rw [renderPaths, hs]; exact .dot hs
      | _ => simp [hs, PathStyle.namesFiles, PathStyle.namesDirectories] at hstyle
  refine ⟨items, hascending, hmem, hrenders, fun hplace => ?_⟩
  obtain ⟨directory, hdirectory, hinside⟩ := exists_workingDirFor hplace hrel ht
  obtain ⟨args, hargs⟩ := (hrenders directory).ok_of_inside fun item hi => hinside item ((hmem item).1 hi)
  exact ⟨directory, args, hdirectory, hargs⟩

end Filter

/-- A linter that runs in the one directory it is for, once for all of its files. -/
def Sample.inSub : Config.Command :=
  { command .lint "tool" [] with invoke := some (.fixed .dirs), workingDir := some (.subRoots ["sub"]) }

namespace Filter

open Sample in
theorem renderPaths_renders_inSub : ∃ f items,
    Config.Loaded.buildFilter Sample.root "check" inSub = .ok f ∧ f.root.Spelled ∧
    [topFile, subFile].Nodup ∧ (∀ p ∈ [topFile, subFile], p.anchor = .relative ∧ p.Spelled) ∧
    ⟨subFile.parent, [subFile]⟩ ∈ Target.pathMap .dirs [topFile, subFile] (Group.make [topFile, subFile]) ∧
    f.workingDirFor subFile.parent .dirs = .ok (f.root / subFile.parent) ∧
    f.IsItem .dirs ⟨subFile.parent, [subFile]⟩ subFile ∧ subFile ∈ items ∧
    f.Renders (f.root / subFile.parent) items (.ok ["b.py"]) := by
  have hready : (Config.Loaded.buildFilter Sample.root "check" inSub).toOption.any (fun f =>
      decide (f.root.Spelled ∧ f.params.pathArgs.namesFiles = true ∧ f.covers subFile = true ∧
        f.workingDirFor subFile.parent .dirs = .ok (f.root / subFile.parent) ∧
        f.renderPaths subFile.parent [subFile] .dirs (f.root / subFile.parent) = .ok ["b.py"])) =
      true := by decide +kernel
  have hnodup : [topFile, subFile].Nodup := by decide
  have hfiles : ∀ p ∈ [topFile, subFile], p.anchor = .relative ∧ p.Spelled := by decide
  have ht : (⟨subFile.parent, [subFile]⟩ : Target) ∈
      Target.pathMap .dirs [topFile, subFile] (Group.make [topFile, subFile]) := by decide
  obtain ⟨f, hf, hready⟩ := of_any_toOption hready
  obtain ⟨hroot, hstyle, hcovers, hdirectory, hargs⟩ := of_decide_eq_true hready
  obtain ⟨items, -, hmem, hrenders, -⟩ := renderPaths_renders hroot hnodup hfiles ht
  have hitem : f.IsItem .dirs ⟨subFile.parent, [subFile]⟩ subFile :=
    .member hstyle (by simp) (by simp) hcovers
  refine ⟨f, items, hf, hroot, hnodup, hfiles, ht, hdirectory, hitem, (hmem subFile).2 hitem, ?_⟩
  rw [← hargs]
  exact hrenders (f.root / subFile.parent)

end Filter

end LintRunner
