import LintRunner.Proofs.FileTree.Normal
import LintRunner.Proofs.Pass.Early
import LintRunner.Proofs.Path.Read
import LintRunner.Proofs.Selection.Standing

/-! Whether the chosen paths lead to what the user meant. A path that the user gives is asked for as it
stands, links and all, but the project's name for it is made from its text. The two lead to the same thing,
unless the text loses a link by a `..` behind it. -/

namespace LintRunner

open Run World

variable {σ : Type} {h : Host σ} {w w' w₀ w₁ : World σ} {t : FileTree} {here : Location}

namespace Selector

variable {s : Selector} {given p : Path} {requested files : List Path} {x : Location × Entry}

/-- What a chosen path can have to do with one that the user gave. -/
inductive MeantBy (s : Selector) (t : FileTree) (here : Location) (given p : Path) : Prop where
  | same {x : Location × Entry} (hgiven : t.status here (s.cwd / given) = .ok x)
      (hfile : x.2 ≠ .directory) (hp : t.status here (s.root / p) = .ok x)
  /-- The given path leads to a directory, and what is chosen is named from there. -/
  | below {l : Location} {names : List String} {name : String}
      (hgiven : t.status here (s.cwd / given) = .ok (l, .directory))
      (hp : s.root / p = (Path.mk .root l).down (names ++ [name]))
      (hentry : ∃ e, t.Holds here ((Path.mk .root l).down names) name e)
  | leavesLink (hfile : t.isDirectory? here (s.cwd / given) = .ok false)
      (hp : s.relativeToRoot? given = .ok p) (hlink : t.LeavesLink here (s.cwd / given))

theorem join_eq_normalize (hp : s.relativeToRoot? given = .ok p) :
    s.root / p = (s.cwd / given).normalize := by
  unfold relativeToRoot? at hp
  split at hp
  · next q hway =>
    cases hp
    obtain ⟨hrelative, heq⟩ := Path.relativeTo?_eq_some_iff.1 hway
    rw [heq, Path.join_of_relative hrelative]
  · cases hp

/-- Behind the current directory already, a path has no other name. -/
theorem relativeToRoot?_of_join (hcwd : s.cwd.isAbsolute = true)
    (hp : s.relativeToRoot? (s.cwd / given) = .ok p) : s.relativeToRoot? given = .ok p := by
  have hjoin : s.cwd / (s.cwd / given) = s.cwd / given := if_pos (Path.isAbsolute_join hcwd given)
  unfold relativeToRoot? at hp ⊢
  rw [hjoin] at hp
  split at hp
  · exact hp
  · cases hp

theorem status_relativeToRoot (hcwd : s.cwd.isAbsolute = true) (hdots : "." ∉ s.cwd.parts)
    (hgiven : given.Spelled) (hs : t.status here (s.cwd / given) = .ok x)
    (hp : s.relativeToRoot? given = .ok p) (hno : ¬ t.LeavesLink here (s.cwd / given)) :
    t.status here (s.root / p) = .ok x := by
  have hspelled : "." ∉ given.parts := fun hmem => by cases (hgiven _ hmem).1
  rw [join_eq_normalize hp]
  exact FileTree.status_normalize (Path.isAbsolute_join hcwd given) (Path.not_mem_join hdots hspelled) hno hs

theorem meantBy_of_standsFor (ht : t.Sound) (hcwd : s.cwd.isAbsolute = true) (hdots : "." ∉ s.cwd.parts)
    (hgiven : given.Spelled) (hstands : s.StandsFor t here given p) : s.MeantBy t here given p := by
  have habsolute := Path.isAbsolute_join hcwd given
  cases hstands with
  | itself hexists hfile hp =>
    have hnamed := relativeToRoot?_of_join hcwd hp
    obtain ⟨⟨l, e⟩, hs⟩ := FileTree.exists?_eq_true_iff.1 hexists
    have hkind : e ≠ .directory := by
      rintro rfl
      rw [FileTree.isDirectory?_eq_true_iff.2 ⟨l, hs⟩] at hfile
      cases hfile
    by_cases hlink : t.LeavesLink here (s.cwd / given)
    · exact .leavesLink hfile hnamed hlink
    · exact .same hs hkind (status_relativeToRoot hcwd hdots hgiven hs hnamed hlink)
  | within hdirectory hbase hoffers hp =>
    obtain ⟨l, hs⟩ := FileTree.isDirectory?_eq_true_iff.1 hdirectory
    -- the walk starts where the path really leads, so that its text makes no difference
    have horigin : t.Rooted (FileTree.originOf here (s.cwd / given)) :=
      FileTree.rooted_originOf_of_isAbsolute habsolute
    have hresolve := FileTree.resolve_of_status ht horigin hs (by simp)
    cases hbase.symm.trans hresolve
    refine .below hs (join_eq_of_relativeToRoot? rfl ?_ hp) hoffers.entry
    have hentries := hoffers.isEntryName ht
    rw [Path.down_parts, List.mem_append, not_or]
    exact ⟨(FileTree.of_resolve_ok hbase).2, fun hmem => (hentries _ hmem).2.2.1 rfl⟩

/-- The project's name for a path leads where the path does, as long as no `..` in it comes after a link;
and what is chosen of the paths that the user gives are they themselves or what is below them. -/
theorem leads_where_meant {mode : Selection.Mode} {root : Path} {cwd : Option Path} {exclude : List String}
    {git : Option Git} (hstart : (start mode root cwd exclude git).go h w₀ = (.ok s, w₁)) :
    (∀ (t : FileTree) (given p : Path) (x : Location × Entry), given.Spelled →
      t.status h.cwd (s.cwd / given) = .ok x → s.relativeToRoot? given = .ok p →
      ¬ t.LeavesLink h.cwd (s.cwd / given) → t.status h.cwd (s.root / p) = .ok x) ∧
    ∀ (w w' : World σ) (requested files : List Path), mode = .paths → w.tree.Sound →
      (∀ given ∈ requested, given.Spelled) →
      (s.select requested).go h w = (.ok (some files), w') →
      ∀ p ∈ files, ∃ given ∈ requested, s.MeantBy w.tree h.cwd given p := by
  obtain ⟨rfl, -, hcwd, -, -⟩ := of_start_ok hstart
  have habsolute := Path.isAbsolute_of_anchor (FileTree.of_resolve_ok hcwd).1
  have hdots := FileTree.not_dot_of_resolve_ok hcwd
  refine ⟨fun t given p x hgiven hs hp hno => status_relativeToRoot habsolute hdots hgiven hs hp hno, ?_⟩
  intro w w' requested files hpaths ht hspelled hselect p hp
  have htree : w'.tree = w.tree := by
    have hidle := s.idle_select (h := h) requested (by rw [hpaths]; rfl) w
    rw [hselect] at hidle
    exact hidle.tree
  cases source_of_select (htree ▸ ht) hselect p hp with
  | walked hmode => cases hpaths.symm.trans hmode
  | @given r hmode hr hstands =>
    rw [htree] at hstands
    exact ⟨r, hr, meantBy_of_standsFor ht habsolute hdots (hspelled r hr) hstands⟩
  | reported hmode =>
    rw [hpaths] at hmode
    cases hmode

end Selector

namespace Sample

/-- Two files of one name, and a link that leads past one of them. -/
def crossing : FileTree := ⟨[(["p"], .directory), (["p", "x"], .file .empty false), (["p", "a"], .directory),
  (["p", "a", "x"], .file .empty false), (["p", "a", "b"], .directory),
  (["p", "a", "b", "y"], .file .empty false), (["p", "link"], .link "a/b")]⟩

def crossingWorld : World Script := ⟨crossing, {}, [], {}, .warning⟩

def crossingHost : Host Script := Script.host ["p"] [] false false

/-- Down into a directory and up again, with no link on the way. -/
def upFromDirectory : Path := ⟨.relative, ["a", "b", "..", "x"]⟩

def upFromLink : Path := ⟨.relative, ["link", "..", "x"]⟩

def throughLink : Path := ⟨.relative, ["link"]⟩

theorem not_leavesLink_crossing : ¬ crossing.LeavesLink ["p"] (⟨.root, ["p"]⟩ / upFromDirectory) := by
  rintro ⟨⟨anchor, front⟩, back, heq, d, name, target, hd, l, hl, hlink⟩
  have hfront : front = ["p", "a", "b"] := by
    have hparts : ["p", "a", "b", "..", "x"] = front ++ ".." :: back := congrArg Path.parts heq
    rcases front with _ | ⟨p, _ | ⟨a, _ | ⟨b, _ | ⟨up, rest⟩⟩⟩⟩
    all_goals simp_all [List.singleton_eq_append_iff]
  obtain rfl : anchor = .root := (congrArg Path.anchor heq).symm
  subst hfront
  have hname : name = "b" := (Path.name_child d name).symm.trans (congrArg Path.name hd).symm
  have hparent : d = ⟨.root, ["p", "a"]⟩ :=
    (Path.parent_child d name).symm.trans (congrArg Path.parent hd).symm
  subst hname hparent
  have hthere : crossing.status ["p"] ⟨.root, ["p", "a"]⟩ = .ok (["p", "a"], .directory) := rfl
  cases hthere.symm.trans hl
  cases hlink

end Sample

namespace Selector

open Sample

theorem start_crossing : (start .paths ⟨.root, ["p"]⟩ none [] none).comesTo crossingHost crossingWorld
    (fun s w₁ => (s.select [upFromDirectory, throughLink]).comesTo crossingHost w₁ fun chosen _ =>
      decide (chosen = some [⟨.relative, ["a", "b", "y"]⟩, ⟨.relative, ["a", "x"]⟩] ∧ w₁.tree.Sound ∧
        s.cwd = ⟨.root, ["p"]⟩ ∧ s.relativeToRoot? upFromDirectory = .ok ⟨.relative, ["a", "x"]⟩)) = true := by
  decide +kernel

/-- A file is named past a directory, and a directory by a link. -/
theorem leads_where_meant_crossing : ∃ s w₁ w',
    (start .paths ⟨.root, ["p"]⟩ none [] none).go crossingHost crossingWorld = (.ok s, w₁) ∧
    w₁.tree.Sound ∧ (∀ given ∈ [upFromDirectory, throughLink], given.Spelled) ∧
    (s.select [upFromDirectory, throughLink]).go crossingHost w₁ =
      (.ok (some [⟨.relative, ["a", "b", "y"]⟩, ⟨.relative, ["a", "x"]⟩]), w') ∧
    (∀ p ∈ [⟨.relative, ["a", "b", "y"]⟩, ⟨.relative, ["a", "x"]⟩],
      ∃ given ∈ [upFromDirectory, throughLink], s.MeantBy w₁.tree crossingHost.cwd given p) ∧
    crossing.status crossingHost.cwd (s.cwd / upFromDirectory) = .ok (["p", "a", "x"], .file .empty false) ∧
    s.relativeToRoot? upFromDirectory = .ok ⟨.relative, ["a", "x"]⟩ ∧
    ¬ crossing.LeavesLink crossingHost.cwd (s.cwd / upFromDirectory) ∧
    crossing.status crossingHost.cwd (s.root / ⟨.relative, ["a", "x"]⟩) =
      .ok (["p", "a", "x"], .file .empty false) := by
  obtain ⟨s, w₁, hstart, hruled⟩ := of_comesTo start_crossing
  obtain ⟨chosen, w', hselect, hruled⟩ := of_comesTo hruled
  obtain ⟨rfl, ht, hcwd, hnamed⟩ := of_decide_eq_true hruled
  have hspelled : ∀ given ∈ [upFromDirectory, throughLink], given.Spelled := by decide
  have hs : crossing.status crossingHost.cwd (s.cwd / upFromDirectory) =
      .ok (["p", "a", "x"], .file .empty false) := by
    rw [hcwd]
    rfl
  have hno : ¬ crossing.LeavesLink crossingHost.cwd (s.cwd / upFromDirectory) := by
    rw [hcwd]
    exact not_leavesLink_crossing
  obtain ⟨hleads, hmeant⟩ := leads_where_meant hstart
  exact ⟨s, w₁, w', hstart, ht, hspelled, hselect, hmeant _ _ _ _ rfl ht hspelled hselect, hs, hnamed, hno,
    hleads crossing _ _ _ (hspelled _ List.mem_cons_self) hs hnamed hno⟩

/-- A path that leads up from a link is named, and chosen, as another file. -/
theorem not_leads_where_meant :
    (¬ ∀ (h : Host Script) (w₀ w₁ : World Script) (root : Path) (cwd : Option Path) (exclude : List String)
      (git : Option Git) (s : Selector) (given p : Path) (x : Location × Entry), w₀.tree.Sound →
      given.Spelled → (start .paths root cwd exclude git).go h w₀ = (.ok s, w₁) →
      w₁.tree.status h.cwd (s.cwd / given) = .ok x → s.relativeToRoot? given = .ok p →
      w₁.tree.status h.cwd (s.root / p) = .ok x) ∧
    ¬ ∀ (h : Host Script) (w₀ w₁ w' : World Script) (root : Path) (cwd : Option Path)
      (exclude : List String) (git : Option Git) (s : Selector) (given : Path) (files : List Path)
      (x : Location × Entry), w₀.tree.Sound → given.Spelled →
      (start .paths root cwd exclude git).go h w₀ = (.ok s, w₁) →
      w₁.tree.status h.cwd (s.cwd / given) = .ok x → FileTree.Entry.isFile x.2 = true →
      (s.select [given]).go h w₁ = (.ok (some files), w') →
      ∀ p ∈ files, w'.tree.status h.cwd (s.root / p) = .ok x := by
  have hruled : (start .paths ⟨.root, ["p"]⟩ none [] none).comesTo crossingHost crossingWorld (fun s w₁ =>
      (s.select [upFromLink]).comesTo crossingHost w₁ fun chosen w' =>
        decide (chosen = some [⟨.relative, ["x"]⟩] ∧
          s.relativeToRoot? upFromLink = .ok ⟨.relative, ["x"]⟩ ∧
          w₁.tree.status crossingHost.cwd (s.cwd / upFromLink) = .ok (["p", "a", "x"], .file .empty false) ∧
          w₁.tree.status crossingHost.cwd (s.root / ⟨.relative, ["x"]⟩) ≠
            .ok (["p", "a", "x"], .file .empty false) ∧
          w'.tree.status crossingHost.cwd (s.root / ⟨.relative, ["x"]⟩) ≠
            .ok (["p", "a", "x"], .file .empty false))) = true := by
    decide +kernel
  obtain ⟨s, w₁, hstart, hruled⟩ := of_comesTo hruled
  obtain ⟨chosen, w', hselect, hruled⟩ := of_comesTo hruled
  obtain ⟨rfl, hnamed, hs, helse, helse'⟩ := of_decide_eq_true hruled
  have ht : crossingWorld.tree.Sound := by decide +kernel
  have hspelled : upFromLink.Spelled := by decide
  constructor
  · intro hall
    exact helse (hall _ _ _ _ _ _ _ _ _ _ _ ht hspelled hstart hs hnamed)
  · intro hall
    exact helse' (hall _ _ _ _ _ _ _ _ _ _ _ _ ht hspelled hstart hs rfl hselect _ List.mem_cons_self)

end Selector

end LintRunner
