import LintRunner.Proofs.FileTree.Resolve
import LintRunner.Proofs.Ignore.Walk
import LintRunner.Proofs.Run.Reads
import LintRunner.Proofs.Selection.Chosen

/-! Where the files of a choice come from: a walk that never looks into what version control keeps for
itself, a path that the user gave, or a line of what git said. -/

namespace LintRunner

open Run World

variable {σ α : Type} {h : Host σ} {t : FileTree} {here : Location}

namespace Walker

/-- The walk can come to the directory at the end of `names`, whatever the rules are, and there is
something of this name in it that is no directory. -/
structure Offers (t : FileTree) (here : Location) (base : Path) (names : List String) (name : String) :
    Prop where
  entries : ∀ n ∈ names, FileTree.IsEntryName n
  control : ∀ n ∈ names, n ∉ vcsDirectories
  entry : ∃ e, t.Holds here (base.down names) name e
  file : leadsToDirectory t here (base.down (names ++ [name])) = false

variable {base : Path} {names : List String} {name : String} {Q : α → Prop}
  {step : α → Path → Run σ α}

theorem Offers.isEntryName (ht : t.Sound) (ho : Offers t here base names name) :
    ∀ n ∈ names ++ [name], FileTree.IsEntryName n := by
  intro n hn
  rcases List.mem_append.1 hn with hn | hn
  · exact ho.entries n hn
  · obtain ⟨e, l, -, he⟩ := ho.entry
    rw [List.mem_singleton.1 hn]
    exact ht.isEntryName he

theorem reads_listing (directory : Path) :
    Reads h t (· = t.entriesAt h.cwd directory) (listing directory) := by
  intro w hw
  obtain ⟨w', hgo, hw'⟩ := finds_listing (h := h) (t := t) directory w hw
  refine ⟨by rw [hgo]; exact hw'.tree.trans hw, fun a ha => ?_⟩
  rw [hgo] at ha
  exact (Except.ok.inj ha).symm

theorem reads_admits (rules : List IgnoreFile) (directory : Path) :
    Reads h t (fun b => b = true → directory.name ∉ vcsDirectories) (admits rules directory) := by
  unfold admits
  refine Reads.ite (fun _ => reads_pure (by simp)) fun hno => ?_
  have hkept : directory.name ∉ vcsDirectories := by simpa using hno
  refine Reads.ite (fun _ => ?_) fun _ => reads_pure fun _ => hkept
  exact Reads.after (idle_debug _) fun _ => reads_pure (by simp)

theorem reads_foldBelow (v : Walker) (ht : t.Sound)
    (hstep : ∀ acc names name, Offers t h.cwd base names name → Q acc →
      Reads h t Q (step acc (base.down (names ++ [name])))) (levels : Nat) (above : List IgnoreFile)
    (hentries : ∀ n ∈ names, FileTree.IsEntryName n) (hcontrol : ∀ n ∈ names, n ∉ vcsDirectories)
    {acc : α} (hacc : Q acc) : Reads h t Q (v.foldBelow step levels above (base.down names) acc) := by
  induction levels generalizing above names acc with
  | zero => exact reads_pure hacc
  | succ levels ih =>
    unfold foldBelow
    refine (reads_listing _).bind ?_
    rintro _ rfl
    refine Reads.after (v.idle_rulesIn _) fun own => reads_tree.bind ?_
    rintro _ rfl
    refine reads_here.bind ?_
    rintro _ rfl
    simp only [List.partition_eq_filter_filter, Path.child_down]
    refine (Reads.filterM fun e _ => reads_admits _ _).bind fun kept hkept => ?_
    have hholds {e : String × Entry} (he : e ∈ t.entriesAt h.cwd (base.down names)) :
        t.Holds h.cwd (base.down names) e.1 e.2 := ht.mem_entriesAt.1 he
    refine (Reads.foldlM (fun acc p hp hacc => ?_) hacc).bind fun acc hacc => ?_
    · obtain ⟨e, he, rfl⟩ := List.mem_map.1 (List.mem_of_mem_filter hp)
      obtain ⟨hmem, hfile⟩ := List.mem_filter.1 he
      exact hstep acc names e.1 ⟨hentries, hcontrol, ⟨e.2, hholds hmem⟩, by simpa using hfile⟩ hacc
    · refine Reads.foldlM (fun acc e he hacc => ?_) hacc
      obtain ⟨hdir, hname⟩ := hkept e (List.mem_of_mem_filter he)
      obtain ⟨l, -, hentry⟩ := hholds (List.mem_of_mem_filter hdir)
      rw [Path.name_down_append] at hname
      refine ih _ ?_ ?_ hacc
      · intro n hn
        rcases List.mem_append.1 hn with hn | hn
        · exact hentries n hn
        · rw [List.mem_singleton.1 hn]
          exact ht.isEntryName hentry
      · intro n hn
        rcases List.mem_append.1 hn with hn | hn
        · exact hcontrol n hn
        · rwa [List.mem_singleton.1 hn]

theorem reads_foldFiles (v : Walker) (ht : t.Sound)
    (hstep : ∀ acc names name, Offers t h.cwd base names name → Q acc →
      Reads h t Q (step acc (base.down (names ++ [name])))) {acc : α} (hacc : Q acc) :
    Reads h t Q (v.foldFiles step base acc) := by
  refine Reads.after (v.idle_inherited base) fun rules => ?_
  refine Reads.after (Moves.mapM (fun f => f.idle_release base) rules) fun released => ?_
  refine Reads.after moves_tree fun t' => ?_
  have hbelow : Reads h t Q (v.foldBelow step (t'.depth + 1) released (base.down []) acc) :=
    v.reads_foldBelow ht hstep _ _ (by simp) (by simp) hacc
  rwa [Path.down_nil] at hbelow

end Walker

namespace Git

variable {w w' : World σ} {g : Git} {args : List String} {out entry : String}

/-- Git has said this line when asked for what is different. -/
def Said (w : World σ) (entry : String) : Prop :=
  ∃ args out, args.head? = some "diff" ∧ .asked args (.ok out) ∈ w.history ∧ entry ∈ linesOf out

theorem said_of_ask (hargs : args.head? = some "diff") (hgo : (g.ask args).go h w = (.ok out, w'))
    (hentry : entry ∈ linesOf out) : Said w' entry := by
  obtain ⟨outcome, w₁, -, hgo⟩ := of_go_bind_ok hgo
  rw [go_bind_ok (go_record _ h w₁), go_ofExcept] at hgo
  cases outcome with
  | error e => cases hgo
  | ok said =>
    cases hgo
    exact ⟨args, out, hargs, List.mem_cons_self, hentry⟩

theorem Said.of_extends (hsaid : Said w entry) (hw : Extends (fun _ => True) w w') :
    Said w' entry := by
  obtain ⟨args, out, hargs, hmem, hentry⟩ := hsaid
  obtain ⟨new, hnew, -⟩ := hw
  have hevents : Event.asked args (.ok out) ∈ w'.events := by
    rw [hnew]
    exact List.mem_append_left _ (List.mem_reverse.2 hmem)
  exact ⟨args, out, hargs, List.mem_reverse.1 hevents, hentry⟩

end Git

namespace World

/-- Where the top of the repository is held, it is held as a place. -/
def TopResolved (w : World σ) : Prop :=
  ∀ top, w.holding.root = some top → top.anchor = .root ∧ ".." ∉ top.parts

def KeepsTop (w w' : World σ) : Prop := w.TopResolved → w'.TopResolved

instance : IsPreorder (World σ) KeepsTop where
  refl _ := id
  trans _ _ _ h₁ h₂ := h₂ ∘ h₁

theorem keepsTop_of_root_eq {w w' : World σ} (hroot : w'.holding.root = w.holding.root) :
    KeepsTop w w' := by
  intro hw
  rwa [TopResolved, hroot]

end World

theorem keepsTop_of_idle {act : Run σ α} (hact : Moves h Idle act) : Moves h KeepsTop act :=
  fun w => keepsTop_of_root_eq (by rw [(hact w).holding])

theorem Exec.keepsTop_run (r : Exec.Request) : Moves h KeepsTop (Exec.run r) := by
  intro w
  simp only [run, go_bind_ok (go_host h w), go_bind_ok (go_tree h w), go_bind_ok (go_here h w)]
  cases lookup? w.tree h.cwd r.exe (searchPath (overlay h.env r.env)) with
  | none => exact id
  | some exe =>
    refine (moves_cwd.bind fun here => (keepsTop_of_idle (idle_resolve _)).bind fun cwd =>
      (keepsTop_of_idle (idle_debug _)).bind fun _ => Moves.bind (fun w => ?_) fun c =>
        keepsTop_of_idle (idle_judged r c)) w
    exact keepsTop_of_root_eq (by rw [(spawn_events _ h w).1])

namespace Git

variable (g : Git)

theorem keepsTop_answer (args : List String) : Moves h KeepsTop (g.answer args) := by
  intro w
  rw [answer, go_bind_ok (go_host h w)]
  cases h.git with
  | none => exact (Exec.keepsTop_run _).bind (fun _ => moves_pure _) w
  | some respond =>
    have hchange (outcome : Except String String × FileTree × σ) : Moves h KeepsTop (do
        Run.change fun w => { w with tree := outcome.2.1, mind := outcome.2.2 }
        ofExcept (fun text => .exec (.reported text)) outcome.1) :=
      Moves.bind (fun _ => keepsTop_of_root_eq rfl) fun _ => moves_ofExcept _ _
    exact hchange (respond args g.cwd w.tree w.mind) w

theorem keepsTop_ask (args : List String) : Moves h KeepsTop (g.ask args) :=
  (g.keepsTop_answer args).attempt.bind fun _ =>
    Moves.bind (fun _ => keepsTop_of_root_eq rfl) fun _ => moves_ofExcept _ _

theorem keepsTop_root? : Moves h KeepsTop g.root? := by
  refine (g.keepsTop_ask _).attempt.bind fun r => ?_
  split
  · exact moves_pure _
  · exact (keepsTop_of_idle (idle_debug _)).bind fun _ => moves_pure _
  · exact moves_fail _

end Git

namespace Selector

/-- Nothing is held at first. -/
theorem topResolved_of_start {mode : Selection.Mode} {root : Path} {cwd : Option Path}
    {exclude : List String} {git : Option Git} {s : Selector} {w w' : World σ}
    (hstart : (start mode root cwd exclude git).go h w = (.ok s, w')) : w'.TopResolved := by
  obtain ⟨-, -, -, -, rfl⟩ := of_start_ok hstart
  rintro top ⟨⟩

variable (s : Selector)

theorem keepsTop_repositoryRoot : Moves h KeepsTop s.repositoryRoot := by
  refine (moves_world.bind fun _ => moves_pure _).bind fun held => ?_
  split
  · exact moves_pure _
  · refine s.git.keepsTop_root?.bind fun said => ?_
    split
    · exact moves_fail _
    · next said =>
      intro w hw
      have hresolve := go_resolve said h w
      cases hq : w.tree.resolve h.cwd said with
      | error e =>
        rw [hq] at hresolve
        rwa [go_bind_error hresolve]
      | ok top =>
        rw [hq] at hresolve
        rw [go_bind_ok hresolve]
        rintro _ ⟨⟩
        exact FileTree.of_resolve_ok hq

theorem keepsTop_stashUnstaged : Moves h KeepsTop s.stashUnstaged := by
  refine s.keepsTop_repositoryRoot.bind fun top => (keepsTop_of_idle (idle_askTree _ _)).bind fun _ => ?_
  refine (keepsTop_of_idle (idle_debug _)).ite ?_
  refine (moves_world.bind fun _ => moves_pure _).bind fun held => Moves.ite ?_ (moves_pure _)
  refine Moves.bind ?_ fun _ => fun _ => keepsTop_of_root_eq rfl
  refine (s.git.keepsTop_ask _).bind fun out => ?_
  exact ((keepsTop_of_idle (idle_debug _)).bind fun _ => moves_pure _).ite
    ((keepsTop_of_idle (idle_debug _)).bind fun _ => moves_pure _)

theorem keepsTop_candidates (requested : List Path) : Moves h KeepsTop (s.candidates requested) := by
  have hreported {args : List String} :
      Moves h KeepsTop (Git.linesOf <$> s.git.ask args >>= s.filesReported) := by
    refine ((s.git.keepsTop_ask args).map _).bind fun entries => ?_
    refine s.keepsTop_repositoryRoot.bind fun top => ?_
    exact (Moves.mapM (fun _ => keepsTop_of_idle (s.idle_fileReported _ _)) _).bind fun _ => moves_pure _
  unfold candidates
  split
  · exact keepsTop_of_idle (s.idle_walkFiles _)
  · exact keepsTop_of_idle (s.idle_explicitFiles _)
  · exact hreported
  · exact hreported
  · exact hreported
  · exact s.keepsTop_stashUnstaged.bind fun _ => hreported

theorem keepsTop_select (requested : List Path) : Moves h KeepsTop (s.select requested) := by
  have hrest : Moves h KeepsTop (do
      debug ("Selecting " ++ s.mode.describe)
      let files := Path.sortedSet (← s.candidates requested)
      if files ≠ [] then return some files
      else if s.mode.usesGit then return none
      else fail (.selection (.allExcluded s.mode))) :=
    (keepsTop_of_idle (idle_debug _)).bind fun _ => (s.keepsTop_candidates requested).bind fun _ =>
      (moves_pure _).ite ((moves_pure _).ite (moves_fail _))
  exact ((moves_fail _).bind fun _ => hrest).ite hrest

theorem topResolved_of_select {s : Selector} {requested : List Path} {chosen : Option (List Path)}
    {w w' : World σ} (hw : w.TopResolved) (hselect : (s.select requested).go h w = (.ok chosen, w')) :
    w'.TopResolved := by
  have hkeeps := s.keepsTop_select requested (h := h) w
  rw [hselect] at hkeeps
  exact hkeeps hw

end Selector

namespace Selector

variable {s : Selector} {p : Path} {requested : List Path} {w w' : World σ}

/-- The given path is that of the file, or the file is one that a walk finds where the path leads. -/
inductive StandsFor (s : Selector) (t : FileTree) (here : Location) (given p : Path) : Prop where
  | itself (hexists : t.exists? here (s.cwd / given) = .ok true)
      (hfile : t.isDirectory? here (s.cwd / given) = .ok false)
      (hp : s.relativeToRoot? (s.cwd / given) = .ok p)
  | within {base : Path} {names : List String} {name : String}
      (hdirectory : t.isDirectory? here (s.cwd / given) = .ok true)
      (hbase : t.resolve here (s.cwd / given) = .ok base)
      (hoffers : Walker.Offers t here base names name)
      (hp : s.relativeToRoot? (base.down (names ++ [name])) = .ok p)

/-- How a file comes to be chosen, in the world that the choice leaves. -/
inductive Source (s : Selector) (h : Host σ) (w : World σ) (requested : List Path) (p : Path) : Prop where
  | walked {names : List String} {name : String} (hmode : s.mode = .all)
      (hoffers : Walker.Offers w.tree h.cwd s.root names name)
      (hp : s.relativeToRoot? (s.root.down (names ++ [name])) = .ok p)
  | given {r : Path} (hmode : s.mode = .paths) (hr : r ∈ requested)
      (hstands : s.StandsFor w.tree h.cwd r p)
  | reported {top : Path} {entry : String} (hmode : s.mode.usesGit = true) (hsaid : Git.Said w entry)
      (htop : w.holding.root = some top)
      (hexists : w.tree.exists? h.cwd (top / Path.ofString entry) = .ok true)
      (hp : s.relativeToRoot? (top / Path.ofString entry) = .ok p)

theorem reads_walkFiles (ht : t.Sound) (base : Path) : Reads h t (fun files => ∀ p ∈ files,
    ∃ names name, Walker.Offers t h.cwd base names name ∧
      s.relativeToRoot? (base.down (names ++ [name])) = .ok p) (s.walkFiles base) := by
  refine Reads.after (Walker.idle_start _) fun v => v.reads_foldFiles ht ?_ (by simp)
  intro files names name hoffers hfiles
  refine (reads_ofExcept fun q hq => hq).bind fun q hq => reads_pure ?_
  split
  · exact hfiles
  · intro p hp
    rcases List.mem_append.1 hp with hp | hp
    · exact hfiles p hp
    · rw [List.mem_singleton.1 hp]
      exact ⟨names, name, hoffers, hq⟩

theorem reads_filesAt (ht : t.Sound) (given : Path) :
    Reads h t (fun files => ∀ p ∈ files, s.StandsFor t h.cwd given p) (s.filesAt given) := by
  refine (reads_askTree FileTree.exists? _).bind fun there hthere => ?_
  have hrest (hthere : t.exists? h.cwd (s.cwd / given) = .ok true) :
      Reads h t (fun files => ∀ p ∈ files, s.StandsFor t h.cwd given p) (do
        let p ← s.relativeToRoot (s.cwd / given)
        let isDirectory ← Run.isDirectory? (s.cwd / given)
        if s.excluder.covers p isDirectory then
          debug ("Skipping excluded path " ++ p.text)
          return []
        else if isDirectory then s.walkFiles (← resolve (s.cwd / given))
        else return [p]) := by
    refine (reads_ofExcept fun q hq => hq).bind fun q hq => ?_
    refine (reads_askTree FileTree.isDirectory? _).bind fun isDirectory hkind => ?_
    refine Reads.ite (fun _ => Reads.after (idle_debug _) fun _ => reads_pure (by simp)) fun _ => ?_
    cases isDirectory with
    | false =>
      refine reads_pure fun p hp => ?_
      rw [List.mem_singleton.1 hp]
      exact .itself hthere hkind hq
    | true =>
      refine (reads_resolve _).bind fun base hbase => (reads_walkFiles ht base).mono fun files hfiles => ?_
      intro p hp
      obtain ⟨names, name, hoffers, hp⟩ := hfiles p hp
      exact .within hkind hbase hoffers hp
  cases there with
  | true => exact hrest hthere
  | false => exact (reads_fail (.selection (.noSuchPath given))).bind fun _ (hno : False) => hno.elim

theorem reads_fileReported (top : Path) (entry : String) : Reads h t (fun files => ∀ p ∈ files,
    t.exists? h.cwd (top / Path.ofString entry) = .ok true ∧
      s.relativeToRoot? (top / Path.ofString entry) = .ok p) (s.fileReported top entry) := by
  refine (reads_askTree FileTree.exists? _).bind fun there hthere => ?_
  cases there with
  | false => exact Reads.after (idle_debug _) fun _ => reads_pure (by simp)
  | true =>
    rw [if_pos rfl]
    split
    · exact Reads.after (idle_debug _) fun _ => reads_pure (by simp)
    · next q hq =>
      refine reads_pure fun p hp => ?_
      split at hp
      · cases hp
      · rw [List.mem_singleton.1 hp]
        exact ⟨hthere, hq⟩

theorem root_of_repositoryRoot {top : Path} (hgo : s.repositoryRoot.go h w = (.ok top, w')) :
    w'.holding.root = some top := by
  obtain ⟨held, w₁, hheld, hgo⟩ := of_go_bind_ok hgo
  cases hheld
  cases hroot : w.holding.root with
  | some root =>
    rw [hroot] at hgo
    cases hgo
    exact hroot
  | none =>
    rw [hroot] at hgo
    obtain ⟨said, w₂, -, hgo⟩ := of_go_bind_ok hgo
    cases said with
    | none => cases hgo
    | some root =>
      obtain ⟨root, w₃, -, hgo⟩ := of_go_bind_ok hgo
      cases hgo
      rfl

theorem source_of_filesReported {entries : List String} {files : List Path}
    (hmode : s.mode.usesGit = true) (hsaid : ∀ entry ∈ entries, Git.Said w' entry)
    (hgo : (s.filesReported entries).go h w = (.ok files, w')) :
    ∀ p ∈ files, Source s h w' requested p := by
  obtain ⟨top, w₁, htop, hgo⟩ := of_go_bind_ok hgo
  have hheld := root_of_repositoryRoot htop
  have hreads : Reads h w₁.tree (fun files => ∀ p ∈ files, ∃ entry ∈ entries,
      w₁.tree.exists? h.cwd (top / Path.ofString entry) = .ok true ∧
        s.relativeToRoot? (top / Path.ofString entry) = .ok p)
      (do return (← entries.mapM (s.fileReported top)).flatten) :=
    Reads.flatten fun entry _ => reads_fileReported top entry
  have hidle : Moves h Idle (do return (← entries.mapM (s.fileReported top)).flatten) :=
    (Moves.mapM (s.idle_fileReported top) entries).bind fun _ => moves_pure _
  have hvalue := (hreads w₁ rfl).value files (by rw [hgo])
  have hstill := hidle w₁
  rw [hgo] at hstill
  intro p hp
  obtain ⟨entry, hentry, hexists, hp⟩ := hvalue p hp
  rw [← hstill.tree] at hexists
  exact .reported hmode (hsaid entry hentry) (hstill.holding ▸ hheld) hexists hp

/-- What one question to git reports is chosen from what git has said. -/
theorem source_of_reported {args : List String} {files : List Path} (hmode : s.mode.usesGit = true)
    (hargs : args.head? = some "diff")
    (hgo : (do s.filesReported (← Git.linesOf <$> s.git.ask args)).go h w = (.ok files, w')) :
    ∀ p ∈ files, Source s h w' requested p := by
  obtain ⟨entries, w₁, hask, hgo⟩ := of_go_bind_ok hgo
  have hanything : Tolerates h fun _ => True := ⟨fun _ _ => trivial, fun _ _ _ _ => trivial⟩
  have hextends := s.extends_filesReported hanything (fun _ _ _ => trivial) entries w₁
  rw [hgo] at hextends
  refine source_of_filesReported hmode (fun entry hentry => ?_) hgo
  rw [go_map] at hask
  rcases hout : (s.git.ask args).go h w with ⟨_ | out, w₂⟩
  · rw [hout] at hask
    cases hask
  · rw [hout] at hask
    cases hask
    exact (Git.said_of_ask hargs hout hentry).of_extends hextends

theorem source_of_candidates {files : List Path} (ht : w'.tree.Sound)
    (hgo : (s.candidates requested).go h w = (.ok files, w')) :
    ∀ p ∈ files, Source s h w' requested p := by
  have hvalue {Q : List Path → Prop} {act : Run σ (List Path)} (hidle : Moves h Idle act)
      (hreads : Reads h w'.tree Q act) (hgo : act.go h w = (.ok files, w')) : Q files := by
    have hstill := hidle w
    rw [hgo] at hstill
    exact (hreads w hstill.tree.symm).value files (by rw [hgo])
  unfold candidates at hgo
  split at hgo
  · next hmode =>
    intro p hp
    obtain ⟨names, name, hoffers, hp⟩ :=
      hvalue (s.idle_walkFiles _) (reads_walkFiles ht s.root) hgo p hp
    exact .walked hmode hoffers hp
  · next hmode =>
    have hreads : Reads h w'.tree
        (fun files => ∀ p ∈ files, ∃ r ∈ requested, s.StandsFor w'.tree h.cwd r p)
        (s.explicitFiles requested) :=
      Reads.after (idle_debug _) fun _ => Reads.flatten fun r _ => reads_filesAt ht r
    intro p hp
    obtain ⟨r, hr, hstands⟩ := hvalue (s.idle_explicitFiles _) hreads hgo p hp
    exact .given hmode hr hstands
  · next hmode => exact source_of_reported (by rw [hmode]; rfl) rfl hgo
  · next hmode => exact source_of_reported (by rw [hmode]; rfl) rfl hgo
  · next hmode => exact source_of_reported (by rw [hmode]; rfl) rfl hgo
  · next hmode =>
    obtain ⟨-, w₁, -, hgo⟩ := of_go_bind_ok hgo
    exact source_of_reported (by rw [hmode]; rfl) rfl hgo

/-- Each chosen file has a source. -/
theorem source_of_select {files : List Path} (ht : w'.tree.Sound)
    (hgo : (s.select requested).go h w = (.ok (some files), w')) :
    ∀ p ∈ files, Source s h w' requested p := by
  have hrest {w : World σ} (hgo : (do
      debug ("Selecting " ++ s.mode.describe)
      let files := Path.sortedSet (← s.candidates requested)
      if files ≠ [] then return some files
      else if s.mode.usesGit then return none
      else fail (.selection (.allExcluded s.mode)) : Run σ (Option (List Path))).go h w =
        (.ok (some files), w')) : ∀ p ∈ files, Source s h w' requested p := by
    obtain ⟨-, w₁, -, hgo⟩ := of_go_bind_ok hgo
    obtain ⟨found, w₂, hfound, hgo⟩ := of_go_bind_ok hgo
    dsimp only at hgo
    split at hgo
    · cases hgo
      exact fun p hp => source_of_candidates ht hfound p (Path.mem_sortedSet.1 hp)
    · split at hgo <;> cases hgo
  simp only [select] at hgo
  split at hgo
  · cases hgo
  · exact hrest hgo

end Selector

end LintRunner
