import LintRunner.Proofs.FileTree.Alike
import LintRunner.Proofs.Filter.Invocation
import LintRunner.Proofs.Path.Order
import LintRunner.Proofs.Run.Matches
import LintRunner.Proofs.Snapshot
import Mathlib.Data.List.Find

/-! What a filter sees of a tree. Two trees that differ in regular files only, and in none that the paths
of a target lead to, are the same to it: it is checked, captured and compared alike in both, and the
same command is started. -/

namespace LintRunner

open Run World FileTree

variable {σ : Type} {h : Host σ} {L : Location → Prop} {t t' : FileTree} {here : Location}
  {root target d full p q : Path} {wanted : Path → Bool} {w w' : World σ}

theorem Path.key_child_inj {name name' : String} (hkey : (d.child name).key = (d.child name').key) :
    d.child name = d.child name' := by
  have hparts : d.parts ++ [name] = d.parts ++ [name'] := by
    unfold Path.key Path.child at hkey
    cases ha : d.anchor with
    | relative => simpa [ha] using hkey
    | root => simpa [ha] using hkey
    | doubleRoot => simpa [ha] using hkey
  rw [Path.child, hparts, Path.child]

theorem FileTree.Alike.contentAt (ht : Alike L t t') (hsame : SameAt t t' here p) :
    t.contentAt here p = t'.contentAt here p := by
  unfold FileTree.contentAt
  cases hp : t.place? here p with
  | some l => rw [ht.status_eq hsame hp]
  | none =>
    rcases ht.refused hp with ⟨r, hr, hr'⟩ | ⟨e, e', -, -, hr, hr'⟩
    · rw [hr, hr']
    · rw [hr, hr']

namespace Run

theorem repeats_isFile? (ht : Alike L t t') (hsame : SameAt t t' h.cwd p) :
    Repeats h t t' (fun b => t.isFile? h.cwd p = .ok b) (isFile? p) :=
  repeats_askTree (ht.inquire _ hsame)

theorem repeats_isDirectory? (ht : Alike L t t') (hsame : SameAt t t' h.cwd p) :
    Repeats h t t' (fun b => t.isDirectory? h.cwd p = .ok b) (isDirectory? p) :=
  repeats_askTree (ht.inquire _ hsame)

theorem repeats_bytesAt (ht : Alike L t t') (hsame : SameAt t t' h.cwd p)
    (hfile : t.isFile? h.cwd p = .ok true) :
    Repeats h t t' (fun _ => ∃ l, t.place? h.cwd p = some l) (bytesAt p) := by
  obtain ⟨l, bytes, executable, hs⟩ := isFile?_eq_true_iff.1 hfile
  have hplace := (place?_of_status hs).1
  have hask : t.bytesAt h.cwd p = t'.bytesAt h.cwd p := by
    rw [FileTree.bytesAt, FileTree.bytesAt, ht.status_eq hsame hplace]
  exact (repeats_askTree hask).mono fun _ _ hab => ⟨hab.1, l, hplace⟩

end Run

namespace Snapshot

theorem silent_askTree {α : Type} (ask : FileTree → Location → Path → Except Refusal α) (p : Path) :
    Moves h Silent (askTree ask p) :=
  moves_tree.bind fun _ => moves_here.bind fun _ => moves_ofExcept _ _

theorem silent_membersOf (d : Path) : Moves h Silent (membersOf d) := by
  refine moves_tree.bind fun t => moves_here.bind fun l => ?_
  split
  · exact moves_tree.bind fun _ => moves_pure _
  · exact moves_fail _
  · exact moves_fail _

theorem silent_isNew (s : Snapshot) (wanted : Path → Bool) (q : Path) :
    Moves h Silent (s.isNew wanted q) := by
  refine Moves.ite (moves_pure _) ((silent_askTree _ _).bind fun b => ?_)
  refine Moves.ite (Moves.bind ?_ fun _ => moves_pure _) (moves_pure _)
  unfold below
  split
  · exact moves_pure _
  · exact moves_fail _

theorem members_perm (ht : Alike L t t') (hsound : t.Sound) (hsound' : t'.Sound)
    (hd : t.isDirectory? here d = .ok true) (hsame : ∀ name, SameAt t t' here (d.child name)) :
    (members t here d).Perm (members t' here d) := by
  obtain ⟨l, hl⟩ := isDirectory?_eq_true_iff.1 hd
  rw [members, members, hl, ht.status_directory hl]
  exact (children_perm hsound hsound' (ht.get?_child hsound hsound' hl hsame)).map _

theorem repeats_below (root q : Path) :
    Repeats h t t' (fun _ => True) (below root q) := by
  unfold below
  split
  · exact matches_pure ⟨rfl, trivial⟩
  · exact matches_fail _

/-- There is an answer to whether it is a file, and none but files are kept. -/
def Asked (t : FileTree) (here : Location) (q : Path) (kept : Bool) : Prop :=
  ∃ b, t.isFile? here q = .ok b ∧ (kept = true → b = true)

theorem repeats_isWanted (ht : Alike L t t') (hsame : SameAt t t' h.cwd q) :
    Repeats h t t' (Asked t h.cwd q) (isWanted root wanted q) := by
  refine (repeats_isFile? ht hsame).bind ?_
  rintro b _ ⟨rfl, hb⟩
  refine .ite (fun htrue => (repeats_below root q).bind ?_) fun _ => matches_pure ⟨rfl, b, hb, nofun⟩
  rintro inside _ ⟨rfl, -⟩
  exact matches_pure ⟨rfl, b, hb, fun _ => htrue⟩

/-- What a snapshot of `full` holds that was taken in `t`. -/
structure Took (t : FileTree) (here : Location) (root full : Path) (s : Snapshot) : Prop where
  root : s.root = root
  contents : ∀ e ∈ s.contents, (e.1 = full ∨ s.directory ≠ none ∧ ∃ name, e.1 = full.child name) ∧
    ∃ l, t.place? here e.1 = some l
  directory : ∀ d, s.directory = some d → d = full ∧ t.isDirectory? here full = .ok true ∧
    t.Askable here full

/-- A directory that could be looked through can be looked through whatever files come and go. -/
theorem askable_of_alike (ht : Alike L t t') (hsound' : t'.Sound) (hask : t.Askable here d) :
    t'.Askable here d := by
  rintro name e ⟨l, hd, he⟩
  by_cases hl : L (l ++ [name])
  · rcases ht.after _ hl with hnone | ⟨bytes, executable, hfile⟩
    · rw [hnone] at he
      cases he
    · exact ⟨true, isFile?_eq_true_iff.2 ⟨_, _, _, status_child hd (hsound'.isEntryName hfile) hfile (by simp)⟩⟩
  · obtain ⟨b, hb⟩ := hask name e ⟨l, ht.symm.status_directory hd, (ht.outside _ hl).trans he⟩
    exact ht.answered _ hb

theorem Took.of_alike {s : Snapshot} (hs : Took t here root full s) (ht : Alike L t t')
    (hsound' : t'.Sound) : Took t' here root full s where
  root := hs.root
  contents := by
    intro e he
    obtain ⟨hname, l, hl⟩ := hs.contents e he
    exact ⟨hname, l, by rwa [← ht.place?_eq]⟩
  directory := by
    intro d hd
    obtain ⟨rfl, hdir, hask⟩ := hs.directory d hd
    obtain ⟨l, hl⟩ := isDirectory?_eq_true_iff.1 hdir
    exact ⟨rfl, isDirectory?_eq_true_iff.2 ⟨l, ht.status_directory hl⟩, askable_of_alike ht hsound' hask⟩

theorem repeats_captured_members (ht : Alike L t t') (hsound : t.Sound) (hsound' : t'.Sound)
    (hdir : t.isDirectory? h.cwd d = .ok true) (hsame : ∀ name, SameAt t t' h.cwd (d.child name)) :
    Repeats h t t' (fun kept => t.Askable h.cwd d ∧
        ∀ q ∈ kept, (∃ name, q = d.child name) ∧ t.isFile? h.cwd q = .ok true)
      (do (Path.sorted (← membersOf d)).filterM (isWanted root wanted)) := by
  obtain ⟨l, hl⟩ := isDirectory?_eq_true_iff.1 hdir
  have hdir' : t'.isDirectory? h.cwd d = .ok true :=
    isDirectory?_eq_true_iff.2 ⟨l, ht.status_directory hl⟩
  refine ((finds_membersOf hdir).matches (finds_membersOf hdir') (silent_membersOf d)
    (silent_membersOf d)).bind ?_
  rintro _ _ ⟨rfl, rfl⟩
  have hnames {q : Path} (hq : q ∈ members t h.cwd d) : ∃ name, q = d.child name := by
    obtain ⟨name, -, rfl, -⟩ := (mem_members hsound).1 hq
    exact ⟨name, rfl⟩
  have hsorted : Path.sorted (members t h.cwd d) = Path.sorted (members t' h.cwd d) := by
    refine Path.sorted_eq_of_perm (members_perm ht hsound hsound' hdir hsame) ?_
    intro p hp q hq hkey
    obtain ⟨name, rfl⟩ := hnames hp
    obtain ⟨name', rfl⟩ := hnames hq
    exact Path.key_child_inj hkey
  rw [← hsorted]
  have hasked : ∀ q ∈ Path.sorted (members t h.cwd d),
      Repeats h t t' (Asked t h.cwd q) (isWanted root wanted q) := by
    intro q hq
    obtain ⟨name, rfl⟩ := hnames (Path.mem_sorted.1 hq)
    exact repeats_isWanted ht (hsame name)
  refine (Repeats.filterM hasked).mono ?_
  rintro kept _ ⟨rfl, hall, hkept⟩
  refine ⟨rfl, ?_, fun q hq => ?_⟩
  · intro name e he
    have hmem : d.child name ∈ Path.sorted (members t h.cwd d) :=
      Path.mem_sorted.2 ((mem_members hsound).2 ⟨name, e, rfl, he⟩)
    obtain ⟨-, b, hb, -⟩ := hall _ hmem
    exact ⟨b, hb⟩
  · obtain ⟨hmem, b, hb, htrue⟩ := hkept q hq
    exact ⟨hnames (Path.mem_sorted.1 hmem), by rw [hb, htrue rfl]⟩

/-- A target is captured alike, whatever differs elsewhere. -/
theorem repeats_capture (ht : Alike L t t') (hsound : t.Sound) (hsound' : t'.Sound)
    (hfull : SameAt t t' h.cwd (root / target))
    (hmembers : t.isDirectory? h.cwd (root / target) = .ok true →
      ∀ name, SameAt t t' h.cwd ((root / target).child name)) :
    Repeats h t t' (Took t h.cwd root (root / target)) (capture root target wanted) := by
  refine (repeats_isFile? ht hfull).bind ?_
  rintro b _ ⟨rfl, hfile⟩
  refine .ite (fun hb => ?_) fun _ => (repeats_isDirectory? ht hfull).bind ?_
  · rw [hb] at hfile
    refine (repeats_bytesAt ht hfull hfile).bind ?_
    rintro bytes _ ⟨rfl, hplace⟩
    exact matches_pure ⟨rfl, rfl, by simpa using hplace, nofun⟩
  · rintro c _ ⟨rfl, hdir⟩
    refine .ite (fun hc => ?_) fun _ => matches_fail _
    rw [hc] at hdir
    rw [← bind_assoc]
    refine (repeats_captured_members ht hsound hsound' hdir (hmembers hdir)).bind ?_
    rintro kept _ ⟨rfl, hask, hkept⟩
    have hbytes : ∀ q ∈ kept, Repeats h t t' (fun e => e.1 = q ∧ ∃ l, t.place? h.cwd q = some l)
        (do return (q, ← Run.bytesAt q)) := by
      intro q hq
      obtain ⟨⟨name, rfl⟩, hfile⟩ := hkept q hq
      refine (repeats_bytesAt ht (hmembers hdir name) hfile).bind ?_
      rintro bytes _ ⟨rfl, hplace⟩
      exact matches_pure ⟨rfl, rfl, hplace⟩
    refine (Repeats.mapM hbytes).bind ?_
    rintro contents _ ⟨rfl, hcontents⟩
    refine matches_pure ⟨rfl, rfl, fun e he => ?_, ?_⟩
    · obtain ⟨q, hq, hkey, hplace⟩ := hcontents e he
      exact ⟨.inr ⟨nofun, hkey ▸ (hkept q hq).1⟩, hkey ▸ hplace⟩
    · rintro d ⟨⟩
      exact ⟨rfl, hdir, hask⟩

theorem repeats_differs (ht : Alike L t t') (hsame : SameAt t t' h.cwd q) {l : Location}
    (hplace : t.place? h.cwd q = some l) (before : ByteArray) :
    Repeats h t t' (fun _ => True) (differs q before) := by
  refine (matches_debug _).bind fun _ _ _ => matches_tree.bind ?_
  rintro _ _ ⟨rfl, rfl⟩
  refine matches_here.bind ?_
  rintro _ _ ⟨rfl, rfl⟩
  rw [← ht.status_eq hsame hplace]
  split
  · exact matches_pure ⟨rfl, trivial⟩
  · exact matches_pure ⟨rfl, trivial⟩
  · exact .ite (fun _ => matches_pure ⟨rfl, trivial⟩) fun _ => matches_fail _
  · exact matches_fail _

/-- Whether something new is in a directory does not depend on the order in which it is gone through. -/
theorem repeats_anyM_isNew (ht : Alike L t t') (hsound : t.Sound) (hsound' : t'.Sound)
    (hdir : t.isDirectory? h.cwd d = .ok true) (hask : t.Askable h.cwd d)
    (hsame : ∀ name, SameAt t t' h.cwd (d.child name)) (s : Snapshot)
    (hinside : ∃ below, d.relativeTo? s.root = some below) :
    Repeats h t t' (fun _ => True) (do (← membersOf d).anyM (s.isNew wanted)) := by
  obtain ⟨l, hl⟩ := isDirectory?_eq_true_iff.1 hdir
  have hdir' : t'.isDirectory? h.cwd d = .ok true :=
    isDirectory?_eq_true_iff.2 ⟨l, ht.status_directory hl⟩
  have hfinds : Finds h t (do (← membersOf d).anyM (s.isNew wanted)) _ :=
    (finds_membersOf hdir).bind (Finds.anyM fun q hq => finds_isNew s hsound hask hinside hq)
  have hfinds' : Finds h t' (do (← membersOf d).anyM (s.isNew wanted)) _ :=
    (finds_membersOf hdir').bind (Finds.anyM fun q hq =>
      finds_isNew s hsound' (askable_of_alike ht hsound' hask) hinside hq)
  have hsilent : Moves h Silent (do (← membersOf d).anyM (s.isNew wanted)) :=
    (silent_membersOf d).bind fun _ => Moves.anyM (silent_isNew s wanted) _
  have hsameNew : ∀ q ∈ members t h.cwd d,
      (!(s.contents.map (·.1)).contains q && wants t h.cwd s.root wanted q) =
        (!(s.contents.map (·.1)).contains q && wants t' h.cwd s.root wanted q) := by
    intro q hq
    obtain ⟨name, e, rfl, -⟩ := (mem_members hsound).1 hq
    rw [wants, wants, ht.contentAt (hsame name)]
  have hperm := members_perm ht hsound hsound' hdir hsame
  refine (hfinds.matches hfinds' hsilent hsilent).mono ?_
  rintro _ _ ⟨rfl, rfl⟩
  refine ⟨?_, trivial⟩
  rw [← hperm.any_eq, Bool.eq_iff_iff, List.any_eq_true, List.any_eq_true]
  exact exists_congr fun q => and_congr_right fun hq => by rw [hsameNew q hq]

theorem repeats_changed (ht : Alike L t t') (hsound : t.Sound) (hsound' : t'.Sound) {s : Snapshot}
    (hs : Took t h.cwd root full s) (hfull : SameAt t t' h.cwd full)
    (hmembers : s.directory ≠ none → ∀ name, SameAt t t' h.cwd (full.child name))
    (hinside : ∃ below, full.relativeTo? root = some below) :
    Repeats h t t' (fun _ => True) (s.changed wanted) := by
  have hdiffers : ∀ e ∈ s.contents, Repeats h t t' (fun _ => True) (differs e.1 e.2) := by
    intro e he
    obtain ⟨hname, l, hplace⟩ := hs.contents e he
    refine repeats_differs ht ?_ hplace e.2
    rcases hname with hname | ⟨hdirectory, name, hname⟩
    · rwa [hname]
    · rw [hname]
      exact hmembers hdirectory name
  refine (Repeats.anyM hdiffers).bind ?_
  rintro b _ ⟨rfl, -⟩
  refine .ite (fun _ => matches_pure ⟨rfl, trivial⟩) fun _ => ?_
  cases hd : s.directory with
  | none => exact matches_pure ⟨rfl, trivial⟩
  | some d =>
    obtain ⟨rfl, hdir, hask⟩ := hs.directory d hd
    have hchildren := hmembers (by simp [hd])
    refine (repeats_isDirectory? ht hfull).bind ?_
    rintro b _ ⟨rfl, -⟩
    refine .ite (fun _ => ?_) fun _ => matches_pure ⟨rfl, trivial⟩
    exact repeats_anyM_isNew ht hsound hsound' hdir hask hchildren s (hs.root ▸ hinside)

end Snapshot

namespace Exec

variable (r : Request)

/-- The process that a request comes to. -/
def spawnOf (h : Host σ) (t : FileTree) (r : Request) : Except Failure Spawn :=
  match lookup? t h.cwd r.exe (searchPath (overlay h.env r.env)) with
  | none => .error (.exec (.notFound r.exe (searchPath (overlay h.env r.env))))
  | some exe => do
    let cwd ← (t.resolve h.cwd (r.inDir.getD ⟨.root, h.cwd⟩)).mapError fun
      | .circle => Failure.crash .linkCircle
      | .nul => .crash .nulInPath
    return ⟨exe :: r.args, cwd, overlay h.env r.env⟩

/-- What is made of the way that it ended. -/
def judged (outcome : Except StartError Completed) : Except Failure Output :=
  outcome.mapError Failure.ofStart >>= fun c => (classify r c).mapError .exec

theorem yields_logEnd (c : Completed) : Yields h (fun _ => True) (logEnd r c) := by
  unfold logEnd
  split
  · exact yields_debug _
  · refine (yields_debug _).bind fun _ _ => .ite (fun _ => ?_) fun _ => yields_pure trivial
    have hlast : Yields h (fun _ => True)
        (if c.stderr ≠ "" then debug ("Stderr was:\n" ++ c.stderr) else pure ()) :=
      .ite (fun _ => yields_debug _) fun _ => yields_pure trivial
    exact .ite (fun _ => (yields_debug _).bind fun _ _ => hlast) fun _ => hlast

theorem silent_logEnd (c : Completed) : Moves h Silent (logEnd r c) := by
  unfold logEnd
  split
  · exact silent_log _ _
  · refine (silent_log _ _).bind fun _ => Moves.ite ?_ (moves_pure _)
    exact ((silent_log _ _).bind fun _ => (silent_log _ _).ite (moves_pure _)).ite
      ((silent_log _ _).ite (moves_pure _))

theorem go_spawn (s : Spawn) (h : Host σ) (w : World σ) : ∃ w',
    (spawn s).go h w = ((h.spawn s w.tree w.mind).1.mapError Failure.ofStart, w') ∧
      w'.tree = (h.spawn s w.tree w.mind).2.1 ∧ w'.printed = w.printed := by
  let w₁ : World σ := { w with tree := (h.spawn s w.tree w.mind).2.1, mind := (h.spawn s w.tree w.mind).2.2 }
  refine ⟨w₁.record (.spawned s (h.spawn s w.tree w.mind).1), ?_, rfl, ?_⟩
  · simp only [spawn, go_bind, go_host, go_world, go_change, go_record, go_ofExcept]
    rfl
  · rw [printed_record]
    exact List.append_nil _

theorem starts_of_spawnOf {s : Spawn} {w : World σ} (hs : spawnOf h w.tree r = .ok s) : r.Starts h w s := by
  unfold spawnOf at hs
  split at hs
  · cases hs
  · next exe hfound =>
    obtain ⟨cwd, hcwd, hs⟩ := of_bind_ok hs
    cases hs
    exact ⟨⟨exe, candidates_of_lookup? hfound, rfl⟩, of_mapError_ok hcwd, rfl⟩

theorem go_run_error {e : Failure} {w : World σ} (hs : spawnOf h w.tree r = .error e) :
    (run r).go h w = (.error e, w) := by
  simp only [run, go_bind_ok (go_host h w), go_bind_ok (go_tree h w), go_bind_ok (go_here h w)]
  cases hfound : lookup? w.tree h.cwd r.exe (searchPath (overlay h.env r.env)) with
  | none =>
    simp only [spawnOf, hfound] at hs
    cases hs
    rfl
  | some exe =>
    have hresolve := go_resolve (r.inDir.getD ⟨.root, h.cwd⟩) h w
    simp only [spawnOf, hfound] at hs
    simp only [go_bind_ok (go_cwd h w)]
    cases hq : w.tree.resolve h.cwd (r.inDir.getD ⟨.root, h.cwd⟩) with
    | ok q =>
      rw [hq] at hs
      cases hs
    | error c =>
      rw [hq] at hs hresolve
      cases c with
      | circle =>
        cases hs
        exact go_bind_error hresolve _
      | nul =>
        cases hs
        exact go_bind_error hresolve _

/-- Whatever is logged, a command comes to what its process comes to. -/
theorem go_run_ok {s : Spawn} {w : World σ} (hs : spawnOf h w.tree r = .ok s) : ∃ w',
    (run r).go h w = (judged r (h.spawn s w.tree w.mind).1, w') ∧
      w'.tree = (h.spawn s w.tree w.mind).2.1 ∧ w'.printed = w.printed := by
  simp only [run, go_bind_ok (go_host h w), go_bind_ok (go_tree h w), go_bind_ok (go_here h w)]
  cases hfound : lookup? w.tree h.cwd r.exe (searchPath (overlay h.env r.env)) with
  | none =>
    simp only [spawnOf, hfound] at hs
    cases hs
  | some exe =>
    simp only [spawnOf, hfound] at hs
    obtain ⟨cwd, hcwd, hs⟩ := of_bind_ok hs
    cases hs
    simp only [go_bind_ok (go_cwd h w)]
    rw [go_bind_ok (go_resolve_of_ok (of_mapError_ok hcwd))]
    obtain ⟨w₁, hdebug, hsilent, hmind⟩ := go_log .debug
      ("Running command [" ++ r.commandLine ++ "] with cwd = " ++ cwd.text) h w
    rw [go_bind_ok (by exact hdebug)]
    obtain ⟨w₂, hspawn, htree, hprinted⟩ := go_spawn ⟨exe :: r.args, cwd, overlay h.env r.env⟩ h w₁
    rw [hsilent.tree, hmind] at hspawn htree
    rw [hsilent.printed] at hprinted
    revert hspawn htree
    rcases h.spawn ⟨exe :: r.args, cwd, overlay h.env r.env⟩ w.tree w.mind with ⟨outcome, tree, mind⟩
    intro hspawn htree
    cases outcome with
    | error e => exact ⟨w₂, go_bind_error hspawn _, htree, hprinted⟩
    | ok c =>
      rw [go_bind_ok (by exact hspawn)]
      obtain ⟨_, w₃, hlog, -, -⟩ := yields_logEnd (h := h) r c w₂
      have hsilent := silent_logEnd (h := h) r c w₂
      rw [hlog] at hsilent
      rw [go_bind_ok hlog, go_ofExcept]
      exact ⟨w₃, rfl, hsilent.tree.trans htree, hsilent.printed.trans hprinted⟩

/-- The same process, if the same is where its program is looked for. -/
theorem spawnOf_eq (ht : Alike L t t') (hproper : t.Proper) (hproper' : t'.Proper)
    (hprogram : ∀ raw ∈ candidates r.exe (searchPath (overlay h.env r.env)),
      ∀ l, t.programPlace? h.cwd raw = some l → t.get? l = t'.get? l) :
    spawnOf h t r = spawnOf h t' r := by
  have hlookup : lookup? t h.cwd r.exe (searchPath (overlay h.env r.env)) =
      lookup? t' h.cwd r.exe (searchPath (overlay h.env r.env)) := by
    unfold lookup?
    exact List.find?_congr fun raw hraw => ht.isExecutable (hprogram raw hraw)
  rw [spawnOf, spawnOf, hlookup, ht.resolve hproper hproper']

end Exec

namespace Filter

variable (f : Filter)

theorem repeats_requireKind (a : Action) : Repeats h t t' (fun _ => True) (f.requireKind a) := by
  unfold requireKind
  exact .ite (fun _ => matches_pure ⟨rfl, trivial⟩) fun _ => matches_fail _

theorem repeats_checkScope (ht : Alike L t t') (hsame : SameAt t t' h.cwd (f.root / p)) (scope : Scope) :
    Repeats h t t' (fun _ => scope = .files → t.isDirectory? h.cwd (f.root / p) ≠ .ok true)
      (f.checkScope p scope) := by
  unfold checkScope
  cases scope with
  | root => exact matches_pure ⟨rfl, nofun⟩
  | dirs =>
    refine (repeats_isFile? ht hsame).bind ?_
    rintro b _ ⟨rfl, -⟩
    exact .ite (fun _ => matches_fail _) fun _ => matches_pure ⟨rfl, nofun⟩
  | files =>
    refine (repeats_isDirectory? ht hsame).bind ?_
    rintro b _ ⟨rfl, hb⟩
    refine .ite (fun _ => matches_fail _) fun hno => matches_pure ⟨rfl, fun _ => ?_⟩
    simpa [hb] using hno

theorem repeats_applies (p : Path) (files : List Path) (scope : Scope) :
    Repeats h t t' (fun _ => True) (f.applies p files scope) := by
  have hfound (b : Bool) (message : String) :
      Repeats h t t' (fun _ => True) (do Run.debug message; return b : Run σ Bool) :=
    (matches_debug message).bind fun _ _ _ => matches_pure ⟨rfl, trivial⟩
  have hdirectory : Repeats h t t' (fun _ => True) (f.appliesToDirectory p files) := by
    unfold appliesToDirectory
    refine .ite (fun _ => hfound _ _) fun _ => .ite (fun _ => matches_pure ⟨rfl, trivial⟩) fun _ => ?_
    split
    · exact hfound _ _
    · exact hfound _ _
  cases scope with
  | files => exact .ite (fun _ => hfound _ _) fun _ => matches_pure ⟨rfl, trivial⟩
  | dirs => exact hdirectory
  | root => exact hdirectory

/-- Nothing is started, or what the request comes to. -/
theorem go_start (a : Action) (files : List Path) (scope : Scope) (h : Host σ) (w : World σ) :
    (∃ e w', (f.requestFor a p files scope >>= Exec.spawnOf h w.tree) = .error e ∧
        (f.start a p files scope).go h w = (.error e, w') ∧ Silent w w') ∨
      ∃ r s w', f.requestFor a p files scope = .ok r ∧ Exec.spawnOf h w.tree r = .ok s ∧
        (f.start a p files scope).go h w = (Exec.judged r (h.spawn s w.tree w.mind).1, w') ∧
        w'.tree = (h.spawn s w.tree w.mind).2.1 ∧ w'.printed = w.printed := by
  unfold start
  cases hr : f.requestFor a p files scope with
  | error e => exact .inl ⟨e, w, rfl, go_bind_error (go_ofExcept_error id e h w) _, Silent.refl w⟩
  | ok r =>
    rw [go_bind_ok (go_ofExcept_ok id r h w)]
    obtain ⟨w₁, hinfo, hsilent, hmind⟩ := go_log .info (a.title ++ " [" ++ summaryForLog files ++ "] with "
      ++ f.name ++ " in [" ++ (r.inDir.getD .here).text ++ "] using command [" ++ r.commandLine ++ "]") h w
    rw [go_bind_ok (by exact hinfo)]
    rw [← hsilent.tree, ← hmind, ← hsilent.printed]
    cases hs : Exec.spawnOf h w₁.tree r with
    | error e => exact .inl ⟨e, w₁, hs, Exec.go_run_error r hs, hsilent⟩
    | ok s =>
      obtain ⟨w₂, hrun, htree, hprinted⟩ := Exec.go_run_ok r hs
      exact .inr ⟨r, s, w₂, rfl, hs, hrun, htree, hprinted⟩

end Filter

end LintRunner
