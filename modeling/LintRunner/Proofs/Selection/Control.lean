import LintRunner.Proofs.Pattern.Name
import LintRunner.Proofs.Pattern.Verdict
import LintRunner.Proofs.Selection.Directory
import LintRunner.Proofs.Selection.Sources

/-! What version control keeps for itself. No walk goes into it, and the patterns for it come last of
all that exclude something; but where they match a directory above a file, a pattern that takes back
the file itself outweighs them. -/

namespace LintRunner

open Run World

variable {σ : Type} {h : Host σ} {w₀ w₁ w w' : World σ} {t : FileTree} {here : Location}

namespace Pattern

variable {lines more : List String} {ps : List Pattern} {p : Pattern}

theorem of_readAll_append (hps : readAll (lines ++ more) = .ok ps) :
    ∃ front back, readAll lines = .ok front ∧ readAll more = .ok back ∧ ps = front ++ back := by
  induction lines generalizing ps with
  | nil => exact ⟨[], ps, rfl, hps, rfl⟩
  | cons line lines ih =>
    rw [List.cons_append, readAll] at hps
    cases hp : read line with
    | error flaw =>
      rw [hp] at hps
      cases hps
    | ok p =>
      rw [hp] at hps
      cases hrest : readAll (lines ++ more) with
      | error e =>
        rw [hrest] at hps
        cases hps
      | ok qs =>
        rw [hrest] at hps
        cases hps
        obtain ⟨front, back, hfront, hback, rfl⟩ := ih hrest
        exact ⟨p :: front, back, by rw [readAll, hp, hfront]; rfl, hback, rfl⟩

theorem mem_of_readAll (hps : readAll lines = .ok ps) :
    p ∈ ps ↔ ∃ line ∈ lines, read line = .ok p := by
  induction lines generalizing ps with
  | nil =>
    cases hps
    simp
  | cons line lines ih =>
    rw [readAll] at hps
    cases hp : read line with
    | error flaw =>
      rw [hp] at hps
      cases hps
    | ok q =>
      rw [hp] at hps
      cases hrest : readAll lines with
      | error e =>
        rw [hrest] at hps
        cases hps
      | ok qs =>
        rw [hrest] at hps
        cases hps
        simp [ih hrest, hp, eq_comm]

theorem throughDirectory_of_weight_lt {c d : Cursor} (hlt : weight c < weight d) :
    throughDirectory c = true ∧ throughDirectory d = false := by
  unfold weight at hlt
  split at hlt
  · split at hlt
    · omega
    · next hc hd => exact ⟨hc, by simpa using hd⟩
  · split at hlt <;> omega

/-- Against positive patterns at the end stands only what counts for more than each of them. -/
theorem exists_outweighs {own control : List Pattern} {path : List Char}
    (hpositive : ∀ p ∈ control, p.positive = true)
    (hverdict : verdict (own ++ control) path = some false) : ∃ q ∈ own, ∃ d, q.positive = false ∧
      q.find? path = some d ∧ ∀ p ∈ control, ∀ c, p.find? path = some c → weight c < weight d := by
  obtain ⟨q, d, ⟨before, after, hsplit, hd, hafter, -⟩, hq⟩ := verdict_eq_some_iff.1 hverdict
  have hnot : q ∉ control := by
    intro hmem
    rw [hpositive q hmem] at hq
    cases hq
  rcases List.append_eq_append_iff.1 hsplit with ⟨between, rfl, hcontrol⟩ | ⟨between, rfl, hrest⟩
  · refine absurd ?_ hnot
    rw [hcontrol]
    simp
  · cases between with
    | nil =>
      refine absurd ?_ hnot
      rw [← List.nil_append control, ← hrest]
      simp
    | cons r between =>
      obtain ⟨rfl, rfl⟩ := List.cons_eq_cons.1 hrest
      exact ⟨q, by simp, d, hq, hd, fun p hp => hafter p (List.mem_append_right between hp)⟩

theorem isPlain_of_mem_vcsDirectories {name : String} (hname : name ∈ vcsDirectories) :
    IsPlain name.toList := by
  revert name
  decide

end Pattern

namespace Matcher

theorem readAll_of_compile {root : Path} {lines : List String} {m : Matcher}
    (hm : compile root lines = .ok m) : Pattern.readAll lines = .ok m.patterns := by
  unfold compile at hm
  cases hps : Pattern.readAll lines with
  | error e =>
    rw [hps] at hm
    cases hm
  | ok ps =>
    rw [hps] at hm
    cases hm
    rfl

theorem candidate?_of_relative {m : Matcher} {p : Path} (hp : p.anchor = .relative)
    (hparts : p.parts ≠ []) : m.candidate? p = some p.parts := by
  simp [candidate?, Path.isAbsolute, hp, hparts]

end Matcher

namespace Walker

/-- A walk comes upon a name of version control only where it stands for no directory. -/
theorem Offers.eq_nil_of_control {base : Path} {names front back : List String} {name last : String}
    (ho : Offers t here base names last) (heq : names ++ [last] = front ++ name :: back)
    (hname : name ∈ vcsDirectories) : back = [] := by
  rcases List.eq_nil_or_concat back with hback | ⟨init, last', rfl⟩
  · exact hback
  · rw [List.concat_eq_append, ← List.cons_append, ← List.append_assoc] at heq
    obtain ⟨hnames, -⟩ := List.append_inj' heq rfl
    exact absurd hname (ho.control name (by simp [hnames]))

end Walker

namespace Selector

variable {s : Selector} {p q : Path} {requested : List Path} {name : String}
  {front back exclude : List String}

theorem ne_empty_of_relativeToRoot? (habsolute : q.isAbsolute = true)
    (hp : s.relativeToRoot? q = .ok p) (hq : "" ∉ q.parts) : "" ∉ p.parts := by
  have hjoin : s.cwd / q = q := if_pos habsolute
  unfold relativeToRoot? at hp
  rw [hjoin] at hp
  split at hp
  · next below hbelow =>
    cases hp
    obtain ⟨-, hparts⟩ := Path.relativeTo?_eq_some_iff.1 hbelow
    intro hmem
    have hnormal : "" ∈ q.normalize.parts := by
      rw [hparts]
      exact List.mem_append_right _ hmem
    rcases Path.mem_normalize hnormal with hmem | hup
    · exact hq hmem
    · exact absurd hup (by decide)
  · cases hp

/-- No name in a chosen path is empty. -/
theorem Source.ne_empty (ht : w.tree.Sound) (hcwd : s.cwd.isAbsolute = true)
    (hroot : s.root.isAbsolute = true) (hdots : ".." ∉ s.root.parts) (hw : w.TopResolved)
    (hp : Source s h w requested p) : "" ∉ p.parts := by
  have hexisting {q : Path} (habsolute : q.isAbsolute = true)
      (hexists : w.tree.exists? h.cwd q = .ok true) (hp : s.relativeToRoot? q = .ok p) :
      "" ∉ p.parts := by
    obtain ⟨⟨l, e⟩, hs⟩ := FileTree.exists?_eq_true_iff.1 hexists
    exact ne_empty_of_relativeToRoot? habsolute hp (ht.ne_empty_of_status hs)
  cases hp with
  | @walked names name hmode hoffers hp =>
    have hentries := hoffers.isEntryName ht
    have hnames : ".." ∉ names ++ [name] := fun hmem => (hentries _ hmem).2.2.1 rfl
    rw [relativeToRoot?_down hroot hdots hnames] at hp
    cases hp
    exact fun hmem => (hentries _ hmem).1 rfl
  | given hmode hr hstands =>
    cases hstands with
    | itself hexists hfile hp => exact hexisting (Path.isAbsolute_join hcwd _) hexists hp
    | @within base names name _ hbase hoffers hp =>
      obtain ⟨e, l, hl, -⟩ := hoffers.entry
      have habsolute : (base.down (names ++ [name])).isAbsolute = true := by
        have hanchor : base.anchor = .root := (FileTree.of_resolve_ok hbase).1
        simp [Path.isAbsolute, Path.down, hanchor]
      refine ne_empty_of_relativeToRoot? habsolute hp ?_
      rw [← Path.child_down, Path.child, List.mem_append, not_or]
      refine ⟨ht.ne_empty_of_status hl, ?_⟩
      have hname := (hoffers.isEntryName ht name (by simp)).1
      simpa [eq_comm] using hname
  | @reported top entry hmode hsaid htop hexists hp =>
    exact hexisting (Path.isAbsolute_join (Path.isAbsolute_of_anchor (hw top htop).1) _) hexists hp

/-- The line takes back the file itself, and not a directory above it. -/
def TakesBack (line : String) (names : List String) : Prop :=
  ∃ q c, Pattern.read line = .ok q ∧ q.positive = false ∧
    q.find? (Matcher.subject names false) = some c ∧ Pattern.throughDirectory c = false

/-- The patterns for version control come last, and only a match that counts for more stands against
theirs. -/
theorem takenBack_of_eligible (hcompile : Matcher.compile s.root (exclude ++ vcsDirectories) = .ok s.excluder)
    (hp : s.Eligible p) (hparts : p.parts = front ++ name :: back) (hname : name ∈ vcsDirectories)
    (hempty : "" ∉ front) (hlines : ∀ n ∈ front, '\n' ∉ n.toList) :
    back ≠ [] ∧ ∃ line ∈ exclude, TakesBack line p.parts := by
  obtain ⟨own, control, hown, hcontrol, hpatterns⟩ :=
    Pattern.of_readAll_append (Matcher.readAll_of_compile hcompile)
  have hplain := Pattern.isPlain_of_mem_vcsDirectories hname
  obtain ⟨c, hc, hend⟩ := Pattern.find?_plain hplain (Pattern.read_plain hplain) hempty hlines back
  rw [← hparts] at hc
  have hmem : (⟨name, true, some (Pattern.nameRegex name.toList)⟩ : Pattern) ∈ control :=
    (Pattern.mem_of_readAll hcontrol).2 ⟨name, hname, Pattern.read_plain hplain⟩
  have hpositive : ∀ q ∈ control, q.positive = true := by
    intro q hq
    obtain ⟨line, hline, hread⟩ := (Pattern.mem_of_readAll hcontrol).1 hq
    cases (Pattern.read_plain (Pattern.isPlain_of_mem_vcsDirectories hline)).symm.trans hread
    rfl
  have hverdict : Pattern.verdict s.excluder.patterns (Matcher.subject p.parts false) = some false := by
    have hkept := hp.kept
    rw [Matcher.covers_eq_verdict (Matcher.candidate?_of_relative hp.relative (by simp [hparts]))] at hkept
    cases hv : Pattern.verdict s.excluder.patterns (Matcher.subject p.parts false) with
    | none =>
      have hno := Pattern.verdict_eq_none_iff.1 hv _ (hpatterns ▸ List.mem_append_right own hmem)
      rw [Pattern.covers_of_find? hc] at hno
      cases hno
    | some b =>
      rw [hv] at hkept
      exact congrArg some hkept
  -- of two matches through the same file only one through a directory weighs less
  rw [hpatterns] at hverdict
  obtain ⟨q, hq, d, hnegative, hd, hless⟩ := Pattern.exists_outweighs hpositive hverdict
  obtain ⟨hc', hd'⟩ := Pattern.throughDirectory_of_weight_lt (hless _ hmem c hc)
  refine ⟨fun hback => ?_, ?_⟩
  · rw [hend hback] at hc'
    cases hc'
  · obtain ⟨line, hline, hread⟩ := (Pattern.mem_of_readAll hown).1 hq
    exact ⟨line, hline, q, d, hread, hnegative, hd, hd'⟩

end Selector

namespace Sample

/-- A file that version control keeps for itself. -/
def checkout : FileTree := ⟨[(["p"], .directory), (["p", ".git"], .directory),
  (["p", ".git", "config"], .file .empty false)]⟩

def checkoutWorld : World Script := ⟨checkout, {}, [], {}, .warning⟩

def config : Path := ⟨.relative, [".git", "config"]⟩

end Sample

namespace Selector

variable {s : Selector} {p : Path} {requested files : List Path} {name : String}
  {front back exclude : List String} {mode : Selection.Mode} {root : Path} {cwd : Option Path}
  {git : Option Git}

open Sample in
/-- What version control keeps for itself can be chosen: a match of the file itself, which takes it back,
counts for more than that of the directory around it. -/
theorem not_control_excluded : ¬ ∀ (h : Host Script) (w w₁ w' : World Script) (mode : Selection.Mode)
    (root : Path) (cwd : Option Path) (exclude : List String) (git : Option Git) (s : Selector)
    (requested files : List Path), w.tree.Sound →
      (start mode root cwd exclude git).go h w = (.ok s, w₁) →
      (s.select requested).go h w₁ = (.ok (some files), w') →
      ∀ p ∈ files, ∀ name ∈ p.parts, name ∉ vcsDirectories := by
  have hruled : (start .paths shelfRoot none ["!.git/config"] none).comesTo shelfHost checkoutWorld
      (fun s w₁ => (s.select [config]).comesTo shelfHost w₁ fun chosen _ =>
        decide (chosen = some [config])) = true := by decide +kernel
  obtain ⟨s, w₁, hstart, hruled⟩ := of_comesTo hruled
  obtain ⟨chosen, w', hselect, hruled⟩ := of_comesTo hruled
  obtain rfl := of_decide_eq_true hruled
  intro hall
  exact hall _ _ _ _ _ _ _ _ _ _ _ _ (by decide +kernel) hstart hselect config (by simp)
    ".git" (by decide) (by decide)

/-- Where a chosen file lies below a directory of version control, a line of the project takes back this
very file; or a name above holds a line feed, past which no pattern looks for the directory. -/
theorem takenBack_of_control
    (hstart : (start mode root cwd exclude git).go h w₀ = (.ok s, w₁)) (hw : w.TopResolved)
    (ht : w'.tree.Sound) (hselect : (s.select requested).go h w = (.ok (some files), w'))
    (hp : p ∈ files) (hparts : p.parts = front ++ name :: back) (hname : name ∈ vcsDirectories) :
    (mode = .all → back = []) ∧ ((∃ n ∈ front, '\n' ∈ n.toList) ∨
      back ≠ [] ∧ ∃ line ∈ exclude, TakesBack line p.parts) := by
  obtain ⟨hmode, hroot, hcwd, hcompile, -⟩ := of_start_ok hstart
  obtain ⟨hanchor, hdots⟩ := FileTree.of_resolve_ok hroot
  have hsource := source_of_select ht hselect p hp
  have heligible := (chosen_of_select hselect).eligible p hp
  refine ⟨fun hall => ?_, ?_⟩
  · cases hsource with
    | @walked names last _ hoffers hq =>
      have hway : ".." ∉ names ++ [last] := fun hmem => (hoffers.isEntryName ht _ hmem).2.2.1 rfl
      rw [relativeToRoot?_down (Path.isAbsolute_of_anchor hanchor) hdots hway] at hq
      cases hq
      exact hoffers.eq_nil_of_control hparts hname
    | given hpaths => cases hall.symm.trans (hmode.symm.trans hpaths)
    | reported hgit =>
      rw [hmode, hall] at hgit
      cases hgit
  · by_cases hlines : ∀ n ∈ front, '\n' ∉ n.toList
    · right
      have hempty := hsource.ne_empty ht (Path.isAbsolute_of_anchor (FileTree.of_resolve_ok hcwd).1)
        (Path.isAbsolute_of_anchor hanchor) hdots (topResolved_of_select hw hselect)
      refine takenBack_of_eligible hcompile heligible hparts hname (fun hmem => hempty ?_) hlines
      rw [hparts]
      exact List.mem_append_left _ hmem
    · left
      simpa using hlines

open Sample in
theorem takenBack_of_control_checkout : ∃ s w₁ w',
    (start .paths shelfRoot none ["!.git/config"] none).go shelfHost checkoutWorld = (.ok s, w₁) ∧
    (s.select [config]).go shelfHost w₁ = (.ok (some [config]), w') ∧
    ∃ line ∈ ["!.git/config"], TakesBack line config.parts := by
  have hruled : (start .paths shelfRoot none ["!.git/config"] none).comesTo shelfHost checkoutWorld
      (fun s w₁ => (s.select [config]).comesTo shelfHost w₁ fun chosen w' =>
        decide (chosen = some [config] ∧ w'.tree.Sound)) = true := by decide +kernel
  obtain ⟨s, w₁, hstart, hruled⟩ := of_comesTo hruled
  obtain ⟨chosen, w', hselect, hruled⟩ := of_comesTo hruled
  obtain ⟨rfl, ht⟩ := of_decide_eq_true hruled
  have hparts : config.parts = [] ++ ".git" :: ["config"] := rfl
  have hcontrol := takenBack_of_control hstart (topResolved_of_start hstart) ht hselect
    List.mem_cons_self hparts (by decide)
  rcases hcontrol.2 with ⟨n, hn, -⟩ | ⟨-, htaken⟩
  · cases hn
  · exact ⟨s, w₁, w', hstart, hselect, htaken⟩

end Selector

end LintRunner
