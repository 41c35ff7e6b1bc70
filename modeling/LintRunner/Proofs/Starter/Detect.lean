import LintRunner.Proofs.Ignore.Fold
import LintRunner.Proofs.Ignore.Missing
import LintRunner.Proofs.Pattern.Depth
import LintRunner.Proofs.Selection.Directory
import LintRunner.Proofs.Starter.Loads
import LintRunner.Starter.Write

/-! Which components the files of a project speak for, and what a starter configuration then does for these
files. The suffixes that files are told by and the patterns of the commands are written down apart from each
other; here they meet. Whatever file made a component be found, a command of the component includes it. -/

namespace LintRunner.Starter

open Config Run

variable {σ : Type} {h : Host σ} {t : FileTree} {p : Path} {c : Component} {components : List Component}
  {files : List Path} {found : List Component}

/-- A name without its suffix comes before the suffix. -/
theorem exists_stem (hp : p.suffix ≠ "") : ∃ stem, p.name.toList = stem ++ p.suffix.toList := by
  unfold Path.suffix at hp ⊢
  dsimp only at hp ⊢
  split
  · next hshort =>
    rw [if_pos hshort] at hp
    exact absurd rfl hp
  · next hlong =>
    have hwhole := List.takeWhile_append_dropWhile (p := (· != '.')) (l := p.name.toList.reverse)
    have hlength := congrArg List.length hwhole
    simp only [Bool.or_eq_true, decide_eq_true_eq, not_or, not_le, List.length_reverse] at hlong
    rw [List.length_append, List.length_reverse] at hlength
    cases hdrop : p.name.toList.reverse.dropWhile (· != '.') with
    | nil =>
      rw [hdrop] at hlength
      simp only [List.length_nil] at hlength
      omega
    | cons y before =>
      have hdot : y = '.' := by
        have hhead := List.head_dropWhile_not (· != '.') (l := p.name.toList.reverse) (by simp [hdrop])
        simpa [hdrop] using hhead
      refine ⟨before.reverse, ?_⟩
      have hname := congrArg List.reverse hwhole
      rw [hdrop, hdot, List.reverse_reverse] at hname
      simpa using hname.symm

namespace Component

/-- The file speaks for the component, by its name or by its suffix. -/
def SpokenFor (c : Component) (p : Path) : Prop :=
  p.name = ".gitignore" ∧ c = gitignore ∨ (p.suffix, c) ∈ suffixes

instance (c : Component) (p : Path) : Decidable (c.SpokenFor p) := inferInstanceAs (Decidable (_ ∨ _))

/-- Only the name of a file counts. -/
theorem spokenFor_congr {q : Path} (hname : p.name = q.name) : c.SpokenFor p ↔ c.SpokenFor q := by
  simp only [SpokenFor, Path.suffix, hname]

theorem lookup_suffixes : ∀ e ∈ suffixes, suffixes.lookup e.1 = some e.2 := by decide

theorem ofFile?_eq_some_iff : ofFile? p = some c ↔ c.SpokenFor p := by
  have hlookup : suffixes.lookup p.suffix = some c ↔ (p.suffix, c) ∈ suffixes := by
    refine ⟨fun hc => ?_, lookup_suffixes _⟩
    obtain ⟨front, back, hsplit, -⟩ := List.lookup_eq_some_iff.1 hc
    exact hsplit ▸ List.mem_append_right front List.mem_cons_self
  unfold ofFile? SpokenFor
  split
  · next hname =>
    have hno : (p.suffix, c) ∉ suffixes := by
      have hsuffix : p.suffix = "" := by
        rw [Path.suffix, hname]
        decide
      rw [hsuffix]
      cases c <;> decide
    simp [hname, hno, eq_comm]
  · next hname => simp [hname, hlookup]

/-- Where a file speaks for the component, there is a pattern for files of its kind. -/
theorem SpokenFor.exists_trigger (hc : c.SpokenFor p) {front : List String} (hempty : "" ∉ front)
    (hlines : ∀ n ∈ front, '\n' ∉ n.toList) (hslash : '/' ∉ p.name.toList) : ∃ line ∈ c.triggers,
      ∃ q, Pattern.read line = .ok q ∧ q.covers (Matcher.subject (front ++ [p.name]) false) = true := by
  rcases hc with ⟨hname, rfl⟩ | hc
  · refine ⟨"**/.gitignore", by decide, Pattern.exists_covers_name ?_ ?_ hempty hlines⟩
    · rw [hname]
      decide
    · rw [hname]
      decide
  · have hplain : ∀ e ∈ suffixes, e.1 ≠ "" ∧ Pattern.IsEnding e.1.toList := by decide
    obtain ⟨hne, hending⟩ := hplain _ hc
    obtain ⟨stem, hname⟩ := exists_stem hne
    refine ⟨"**/*" ++ p.suffix, List.mem_append_right _ (List.mem_map.2 ⟨_, List.mem_filter.2 ⟨hc, ?_⟩, rfl⟩),
      Pattern.exists_covers_ending hending ?_ hempty hlines hname hslash⟩
    · exact decide_eq_true rfl
    · rw [String.toList_append]
      rfl

end Component

/-- The components found so far, with what one more file speaks for. -/
def noted (found : List Component) (p : Path) : List Component :=
  match Component.ofFile? p with
  | none => found
  | some c => if found.contains c then found else c :: found

theorem mem_noted : c ∈ noted found p ↔ c ∈ found ∨ c.SpokenFor p := by
  rw [← Component.ofFile?_eq_some_iff]
  unfold noted
  split
  · next hnone => simp [hnone]
  · next c' hsome =>
    rw [hsome]
    split
    · next hmem =>
      have hc' : c' ∈ found := List.contains_iff_mem.1 hmem
      refine ⟨.inl, fun hor => hor.elim id ?_⟩
      rintro ⟨⟩
      exact hc'
    · rw [List.mem_cons, or_comm, Option.some.injEq, eq_comm]

theorem finds_noteFile (found : List Component) (p : Path) : Finds h t (noteFile found p) (noted found p) := by
  unfold noteFile noted
  cases Component.ofFile? p with
  | none => exact finds_pure found
  | some c =>
    dsimp only
    split
    · exact finds_pure found
    · exact (finds_debug _).bind (finds_pure _)

theorem silent_noteFile (found : List Component) (p : Path) : Moves h World.Silent (noteFile found p) := by
  unfold noteFile
  split
  · exact moves_pure _
  · exact .ite (moves_pure _) ((silent_log _ _).bind fun _ => moves_pure _)

/-- The components are those that the files speak for. -/
def Notes (files : List Path) (found : List Component) : Prop :=
  ∀ c, c ∈ found ↔ ∃ p ∈ files, c.SpokenFor p

theorem matches_noteFile (hfound : Notes files found) (p : Path) :
    Matches h t t Notes (pure (files ++ [p])) (noteFile found p) := by
  refine ((finds_pure _).matches (finds_noteFile found p) (moves_pure _) (silent_noteFile found p)).mono ?_
  rintro _ _ ⟨rfl, rfl⟩ c
  rw [mem_noted, hfound]
  simp only [List.mem_append, List.mem_singleton, or_and_right, exists_or, exists_eq_left]

/-- What a walk comes to is named from where it began. -/
structure Below (root p : Path) : Prop where
  way : ∃ front, p = root.down (front ++ [p.name]) ∧ "" ∉ front ∧ ∀ n ∈ front, '\n' ∉ n.toList
  slash : '/' ∉ p.name.toList

theorem below_of_offers (ht : t.Sound) (hlines : ∀ x ∈ t.entries, ∀ n ∈ x.1, '\n' ∉ n.toList) {base : Path}
    {names : List String} {name : String} (ho : Walker.Offers t h.cwd base names name) :
    Below base (base.down (names ++ [name])) := by
  have hentry := ho.isEntryName ht
  obtain ⟨e, l, hs, he⟩ := ho.entry
  refine ⟨⟨names, ?_, fun hempty => (hentry "" (List.mem_append_left _ hempty)).1 rfl, fun n hn => ?_⟩, ?_⟩
  · rw [Path.name_down_append]
  · obtain ⟨-, hwalk, hl⟩ := FileTree.status_eq_ok_iff.1 hs
    obtain ⟨-, hdot, hup, -⟩ := hentry n (List.mem_append_left _ hn)
    have hmem : n ∈ (base.down names).parts := List.mem_append_right _ hn
    rcases FileTree.entry_of_walkTo hwalk hl hmem with h | h | ⟨k, e', hk⟩
    · exact absurd h hdot
    · exact absurd h hup
    · exact hlines _ (ht.get?_eq_some_iff.1 hk) n (List.mem_append_right _ (List.mem_singleton.2 rfl))
  · rw [Path.name_down_append]
    exact (hentry name (by simp)).2.2.2.1

theorem reads_walk (v : Walker) (ht : t.Sound) (hlines : ∀ x ∈ t.entries, ∀ n ∈ x.1, '\n' ∉ n.toList)
    (base : Path) : Reads h t (fun files => ∀ p ∈ files, Below base p) (v.walk base) := by
  have hstep (files : List Path) (names : List String) (name : String)
      (ho : Walker.Offers t h.cwd base names name) (hfiles : ∀ p ∈ files, Below base p) :
      Reads h t (fun files => ∀ p ∈ files, Below base p)
        (pure (files ++ [base.down (names ++ [name])]) : Run σ (List Path)) := by
    refine reads_pure fun p hp => ?_
    rcases List.mem_append.1 hp with hp | hp
    · exact hfiles p hp
    · rw [List.mem_singleton.1 hp]
      exact below_of_offers ht hlines ho
  exact v.reads_foldFiles ht hstep nofun

theorem includer_of_build {params : Filter.Params} {root : Path} {f : Filter}
    (hf : Filter.build params root = .ok f) : Matcher.compile root params.includes = .ok f.includer := by
  unfold Filter.build at hf
  split at hf
  · split at hf
    · cases hf
    · cases hf
  · split at hf
    · cases hf
    · obtain ⟨includer, hincluder, hf⟩ := of_bind_ok hf
      obtain ⟨excluder, -, hf⟩ := of_bind_ok hf
      obtain ⟨tolerated, -, hf⟩ := of_bind_ok hf
      cases hf
      exact of_mapError_ok hincluder

theorem includer_of_buildFilter {root : Path} {name : String} {k : Command} {f : Filter}
    (hf : Loaded.buildFilter root name k = .ok f) : Matcher.compile root k.includes = .ok f.includer := by
  obtain ⟨params, hparams, hf⟩ := of_bind_ok hf
  obtain ⟨i, -, hi⟩ := of_bind_ok (of_mapError_ok hparams)
  cases hi
  exact includer_of_build hf

/-- No two commands go by one name, so a configuration has all the commands of its components. -/
theorem mem_commandsOf_iff {d : Declared} : d ∈ commandsOf components ↔ ∃ c ∈ components, d ∈ c.commands := by
  have hnames : ((Component.every.flatMap Component.commands).map Declared.name).Nodup := by decide
  have hevery {d : Declared} {c : Component} (hd : d ∈ c.commands) :
      d ∈ Component.every.flatMap Component.commands :=
    List.mem_flatMap.2 ⟨c, by cases c <;> decide, hd⟩
  refine ⟨mem_commandsOf, fun ⟨c, hc, hd⟩ => ?_⟩
  have hname : d.name ∈ (commandsOf components).map Declared.name := by
    rw [commandsOf, map_name_firstOfEach, List.mem_eraseDups]
    exact List.mem_map_of_mem (List.mem_flatMap.2 ⟨c, hc, hd⟩)
  -- where a command was left out, one of its name stands there, and that is the command itself
  obtain ⟨d', hd', hsame⟩ := List.mem_map.1 hname
  obtain ⟨c', -, hc'⟩ := mem_commandsOf hd'
  rwa [← List.inj_on_of_nodup_map hnames (hevery hc') (hevery hd) hsame]

theorem Configures.exists_command {project : Project} (hp : Configures components project) {d : Declared}
    (hd : d ∈ commandsOf components) : ∃ k, (d.name, k) ∈ project.commands ∧ Declares d d.table k := by
  have hall := hp.commands
  generalize commandsOf components = ds, project.commands = es at hall hd
  induction hall with
  | nil => cases hd
  | cons hde _ ih =>
    rcases List.mem_cons.1 hd with rfl | hd
    · exact ⟨_, hde.1 ▸ List.mem_cons_self, hde.2⟩
    · obtain ⟨k, hk, hdeclares⟩ := ih hd
      exact ⟨k, List.mem_cons_of_mem _ hk, hdeclares⟩

/-- Every configuration with the component has a command of it that includes the file. -/
def Serves (h : Host σ) (root p : Path) (c : Component) : Prop :=
  ∃ below, p.relativeTo? root = some below ∧ ∃ d ∈ c.commands, ∀ components, c ∈ components →
    ∀ (file : Path) (w : World σ), w.tree.bytesAt h.cwd file = .ok (render components).toUTF8 →
      ∃ project k f, (load file).go h w = (.ok project, w) ∧ (d.name, k) ∈ project.commands ∧
        Loaded.buildFilter root d.name k = .ok f ∧ f.includer.covers below false = true

theorem serves_of_spokenFor {root : Path} (hbelow : Below root p) (hc : c.SpokenFor p) : Serves h root p c := by
  obtain ⟨front, hway, hempty, hlines⟩ := hbelow.way
  obtain ⟨line, hline, q, hq, hcovers⟩ := hc.exists_trigger hempty hlines hbelow.slash
  obtain ⟨d, hd, t, k, hk, hmem⟩ := Component.covers hline
  refine ⟨⟨.relative, front ++ [p.name]⟩, by rw [hway, Path.relativeTo?_down, Path.name_down_append], d, hd, ?_⟩
  intro components hcomponent file w hbytes
  obtain ⟨project, hload, hproject⟩ := load_render hbytes
  -- the command is loaded from the same section that its patterns were read from
  obtain ⟨k', hdeclared, hk'⟩ := hproject.exists_command (mem_commandsOf_iff.2 ⟨c, hcomponent, hd⟩)
  cases hk.unique hk'
  obtain ⟨f, hf⟩ := hk.builds root
  refine ⟨project, k, f, hload, hdeclared, hf, ?_⟩
  refine Matcher.covers_of_mem (includer_of_buildFilter hf) hk.positive ?_ hmem hq hcovers
  simp [Matcher.candidate?, Path.isAbsolute]

/-- The directory that is looked through, and the files below it that are not ignored. -/
def survey (root : Path) : Run σ (Path × List Path) := do
  let root ← Run.resolve root
  return (root, ← (← Walker.start root).walk root)

/-- What is found agrees with the directory that was looked through and the files in it. The components are listed
in their order, each once; they are those that some file speaks for; and each file will have a command. -/
structure Detects (h : Host σ) (seen : Path × List Path) (found : List Component) : Prop where
  inOrder : found.Sublist Component.every
  once : found.Nodup
  exact : ∀ c, c ∈ found ↔ ∃ p ∈ seen.2, c.SpokenFor p
  served : ∀ p ∈ seen.2, ∀ c : Component, c.SpokenFor p → Serves h seen.1 p c

theorem Notes.detects {root : Path} (hfound : Notes files found) (hfiles : ∀ p ∈ files, Below root p) :
    Detects h (root, files) (Component.every.filter found.contains) := by
  have hevery : Component.every.Nodup := by decide
  refine ⟨List.filter_sublist, hevery.filter _, fun c => ?_, fun p hp c => serves_of_spokenFor (hfiles p hp)⟩
  have hc : c ∈ Component.every := by cases c <;> decide
  rw [List.mem_filter, List.contains_iff_mem, ← hfound]
  exact and_iff_right hc

theorem matches_detect (ht : t.Sound) (hlines : ∀ x ∈ t.entries, ∀ n ∈ x.1, '\n' ∉ n.toList) (root : Path) :
    Matches h t t (Detects h) (survey root) (detect root) := by
  refine (fixed_resolve root).matches fun r => (Walker.fixed_start r).matches fun v => ?_
  have hfold : Matches h t t Notes (v.walk r) (v.foldFiles noteFile r []) :=
    v.matches_foldFiles (fun files found p hfound => matches_noteFile hfound p) r (by simp [Notes])
  refine (hfold.and_reads (reads_walk v ht hlines r)).bind fun files found hfound => ?_
  exact matches_pure (hfound.1.detects hfound.2)

theorem finds_survey {w : World σ} {root r : Path} {v : Walker} (hr : w.tree.resolve h.cwd root = .ok r)
    (hv : ((Walker.start r).go h w).1 = .ok v) (hloads : v.Loads w.tree h.cwd) :
    Finds h w.tree (survey root) (r, v.walked w.tree h.cwd r) := by
  have hresolve : Finds h w.tree (Run.resolve root) r := by
    intro w' hw'
    exact ⟨w', by rw [go_resolve, hw', hr]; rfl, World.Still.refl w'⟩
  exact hresolve.bind ((Walker.finds_start_of_ok hv).bind
    ((Walker.finds_walk_of_start hv hloads).bind (finds_pure _)))

/-- Finding components and walking end alike: in the same failure, or the components agree with the files. Where
the root can be resolved, the search for a repository comes to an answer and every ignore file loads, they end with
a value. -/
theorem detect_agrees {w : World σ} (ht : w.tree.Sound)
    (hlines : ∀ x ∈ w.tree.entries, ∀ n ∈ x.1, '\n' ∉ n.toList) (root : Path) :
    Ends (Detects h) ((survey root).go h w).1 ((detect root).go h w).1 ∧
    ∀ r v, w.tree.resolve h.cwd root = .ok r → ((Walker.start r).go h w).1 = .ok v → v.Loads w.tree h.cwd →
      ∃ files found, ((survey root).go h w).1 = .ok (r, files) ∧ ((detect root).go h w).1 = .ok found := by
  have hmatches : Matches h w.tree w.tree (Detects h) (survey root) (detect root) := matches_detect ht hlines root
  refine ⟨(hmatches w w rfl rfl).1, fun r v hr hv hloads => ?_⟩
  have hsurvey := finds_survey hr hv hloads
  obtain ⟨w₁, hfiles, -⟩ := hsurvey w rfl
  obtain ⟨found, w₂, hfound, -⟩ := hmatches.finds hsurvey rfl
  exact ⟨_, found, congrArg Prod.fst hfiles, congrArg Prod.fst hfound⟩

/-- A repository with a module that has two dots in its name, a file that is named like a suffix, and one that is
ignored. -/
def Sample.mixed : World Script :=
  ⟨⟨[(["p"], .directory), (["p", ".git"], .directory), (["p", ".gitignore"], .file "gen/\n".toUTF8 false),
    (["p", "gen"], .directory), (["p", "gen", "x.rs"], .file .empty false), (["p", "lib"], .directory),
    (["p", "lib", "My.Test.pm"], .file .empty false), (["p", "lib", ".go"], .file .empty false)]⟩,
    {}, [], {}, .warning⟩

def Sample.mixedRoot : Path := ⟨.root, ["p"]⟩

def Sample.mixedWalker : Walker := ⟨mixedRoot, some mixedRoot⟩

theorem Sample.loads_mixed : mixedWalker.Loads mixed.tree [] := by
  refine Walker.loads_of_readable (by decide +kernel) (by decide +kernel) ?_
  rintro git ⟨⟩
  decide +kernel

open Starter.Sample in
theorem detect_agrees_mixed : mixed.tree.Sound ∧ (∀ x ∈ mixed.tree.entries, ∀ n ∈ x.1, '\n' ∉ n.toList) ∧
    mixedWalker.Loads mixed.tree [] ∧ ∃ files found,
      ((survey mixedRoot).go (Script.host [] [] false false) mixed).1 = .ok (mixedRoot, files) ∧
      ((detect mixedRoot).go (Script.host [] [] false false) mixed).1 = .ok found ∧
      Component.perl ∈ found ∧ Component.go ∉ found ∧
      Serves (Script.host [] [] false false) mixedRoot (mixedRoot.down ["lib", "My.Test.pm"]) .perl := by
  have hsound : mixed.tree.Sound := by decide +kernel
  have hlines : ∀ x ∈ mixed.tree.entries, ∀ n ∈ x.1, '\n' ∉ n.toList := by decide +kernel
  have hresolve : mixed.tree.resolve [] mixedRoot = .ok mixedRoot := by decide +kernel
  have hstart : ((Walker.start mixedRoot).go (Script.host [] [] false false) mixed).1 = .ok mixedWalker := rfl
  obtain ⟨hends, hvalues⟩ := detect_agrees (h := Script.host [] [] false false) hsound hlines mixedRoot
  obtain ⟨files, found, hsurvey, hdetect⟩ := hvalues mixedRoot mixedWalker hresolve hstart loads_mixed
  have hfiles : files = mixedWalker.walked mixed.tree [] mixedRoot := by
    obtain ⟨w', hgo, -⟩ := finds_survey hresolve hstart loads_mixed mixed rfl
    rw [hgo] at hsurvey
    cases hsurvey
    rfl
  rw [hsurvey, hdetect] at hends
  cases hends with
  | value hagrees =>
    have hroot : mixed.tree.status [] (mixedRoot.down []) = .ok (["p"], .directory) := by decide +kernel
    have hlib : mixedWalker.GoesInto mixed.tree [] mixedRoot [] "lib" :=
      ⟨⟨_, hroot, by decide +kernel⟩, by decide, by decide +kernel⟩
    have hmodule : mixedRoot.down ["lib", "My.Test.pm"] ∈ files := by
      rw [hfiles, Walker.mem_walked hsound]
      refine ⟨["lib"], "My.Test.pm", rfl, ⟨hlib, trivial⟩, ⟨.file .empty false, ["p", "lib"], ?_⟩, ?_, ?_⟩
      all_goals decide +kernel
    have hperl : Component.perl.SpokenFor (mixedRoot.down ["lib", "My.Test.pm"]) := by decide
    refine ⟨hsound, hlines, loads_mixed, files, found, hsurvey, hdetect,
      (hagrees.exact _).2 ⟨_, hmodule, hperl⟩, fun hgo => ?_, hagrees.served _ hmodule _ hperl⟩
    have hno : ∀ x ∈ mixed.tree.entries, ¬ Component.go.SpokenFor ⟨.root, x.1⟩ := by decide
    obtain ⟨p, hp, hgo⟩ := (hagrees.exact _).1 hgo
    dsimp only at hp
    rw [hfiles, Walker.mem_walked hsound] at hp
    obtain ⟨names, name, rfl, -, ⟨e, l, -, he⟩, -⟩ := hp
    refine hno _ (hsound.get?_eq_some_iff.1 he) ((Component.spokenFor_congr ?_).1 hgo)
    rw [Path.name_down_append]
    simp [Path.name]

end LintRunner.Starter
