import LintRunner.Proofs.FileTree.Sound
import LintRunner.Proofs.Run.Finds

/-! A snapshot taken in one tree and compared with another tells exactly whether what it was taken of
is the same in both: the file it was taken of, or the members of a directory that are wanted. -/

namespace LintRunner

open Run

variable {σ : Type} {h : Host σ} {t t' : FileTree} {here : Location} {root target d p q : Path}
  {name : String} {wanted : Path → Bool} {bytes : ByteArray}

namespace FileTree

/-- The bytes of the regular file that the path leads to; none if it leads to none. -/
def contentAt (t : FileTree) (here : Location) (p : Path) : Option ByteArray :=
  match t.status here p with
  | .ok (_, .file bytes _) => some bytes
  | _ => none

theorem contentAt_eq_some_iff : t.contentAt here p = some bytes ↔
    ∃ l executable, t.status here p = .ok (l, .file bytes executable) := by
  unfold contentAt
  split
  · next hs => simp [hs]
  · next hno =>
    simp only [reduceCtorEq, false_iff, not_exists]
    exact fun l executable => hno l bytes executable

/-- The path leads to a regular file with these bytes. -/
def hasContent (t : FileTree) (here : Location) (p : Path) (bytes : ByteArray) : Bool :=
  (t.contentAt here p).any fun now => now.data == bytes.data

theorem hasContent_iff : t.hasContent here p bytes = true ↔ t.contentAt here p = some bytes := by
  simp only [hasContent, Option.any_eq_true, beq_iff_eq]
  constructor
  · rintro ⟨now, hnow, hdata⟩
    rwa [← ByteArray.ext hdata]
  · intro hp
    exact ⟨bytes, hp, rfl⟩

theorem isFile?_of_contentAt (hp : t.contentAt here p = some bytes) : t.isFile? here p = .ok true := by
  obtain ⟨l, executable, hs⟩ := contentAt_eq_some_iff.1 hp
  exact isFile?_eq_true_iff.2 ⟨l, bytes, executable, hs⟩

theorem exists_contentAt (hp : t.isFile? here p = .ok true) : ∃ bytes, t.contentAt here p = some bytes := by
  obtain ⟨l, bytes, executable, hs⟩ := isFile?_eq_true_iff.1 hp
  exact ⟨bytes, contentAt_eq_some_iff.2 ⟨l, executable, hs⟩⟩

/-- Of every entry of the directory it can be told whether it is a file. -/
def Askable (t : FileTree) (here : Location) (d : Path) : Prop :=
  ∀ name e, t.Holds here d name e → ∃ b, t.isFile? here (d.child name) = .ok b

theorem ShortLinks.askable (hlinks : t.ShortLinks) (ht : t.Sound) (here : Location) (d : Path) :
    t.Askable here d := by
  intro name e he
  unfold isFile? inquire
  cases hs : t.status here (d.child name) with
  | ok le => exact ⟨_, rfl⟩
  | error r =>
    have hd := he.isDirectory?
    obtain ⟨l, -, hentry⟩ := he
    have hname := (ht.isEntryName hentry).2.2.2.2.2
    exact ⟨false, by simp [hlinks.status_child_settles hd hname hs]⟩

/-- What is found in a directory is one of its entries. -/
theorem holds_of_status (hname : IsEntryName name) {l : Location} {e : Entry}
    (hs : t.status here (d.child name) = .ok (l, e)) : ∃ e, t.Holds here d name e := by
  obtain ⟨l', hl'⟩ := status_parent (by simp [Path.child]) hs
  rw [Path.parent_child] at hl'
  obtain ⟨-, hwalk, hdir⟩ := status_eq_ok_iff.1 hl'
  obtain ⟨-, hfound, -⟩ := status_eq_ok_iff.1 hs
  obtain ⟨left, hleft⟩ := walkTo_child hwalk true name
  have hlast : t.walkTo true left l' [name] = .found l := hleft.symm.trans hfound
  obtain ⟨-, hdot, hup, -, -, hlong⟩ := hname
  cases he : t.get? (l' ++ [name]) with
  | some e => exact ⟨e, l', hl', he⟩
  | none =>
    rw [walkTo] at hlast
    simp [descend, hdir, hdot, hup, Nat.not_lt.2 hlong, he] at hlast

end FileTree

namespace Snapshot

open FileTree

theorem finds_isFile? {b : Bool} (hp : t.isFile? h.cwd p = .ok b) : Finds h t (isFile? p) b :=
  finds_askTree hp

theorem finds_bytesAt (hp : t.contentAt h.cwd p = some bytes) : Finds h t (bytesAt p) bytes := by
  obtain ⟨l, executable, hs⟩ := contentAt_eq_some_iff.1 hp
  exact finds_askTree (by simp [FileTree.bytesAt, hs, bind, Except.bind, pure, Except.pure])

/-- In `t`, `q` is a file in the directory and wanted, with these bytes. -/
structure Member (t : FileTree) (here : Location) (root d : Path) (wanted : Path → Bool) (q : Path)
    (bytes : ByteArray) : Prop where
  entry : ∃ name e, q = d.child name ∧ t.Holds here d name e
  wanted : ∃ below, q.relativeTo? root = some below ∧ wanted below = true
  content : t.contentAt here q = some bytes

def members (t : FileTree) (here : Location) (d : Path) : List Path :=
  match t.status here d with
  | .ok (l, .directory) => (t.children l).map fun e => d.child e.1
  | _ => []

theorem mem_members (ht : t.Sound) :
    q ∈ members t here d ↔ ∃ name e, q = d.child name ∧ t.Holds here d name e := by
  unfold members
  split
  · next l hl =>
    simp only [List.mem_map, Prod.exists, ht.mem_children]
    constructor
    · rintro ⟨name, e, he, rfl⟩
      exact ⟨name, e, rfl, l, hl, he⟩
    · rintro ⟨name, e, rfl, l', hl', he⟩
      cases hl.symm.trans hl'
      exact ⟨name, e, he, rfl⟩
  · next hno =>
    constructor
    · intro hq
      cases hq
    · rintro ⟨name, e, -, l, hl, -⟩
      exact absurd hl (hno l)

theorem finds_membersOf (hd : t.isDirectory? h.cwd d = .ok true) :
    Finds h t (membersOf d) (members t h.cwd d) := by
  obtain ⟨l, hl⟩ := isDirectory?_eq_true_iff.1 hd
  refine finds_tree.bind (finds_here.bind ?_)
  rw [members, hl]
  exact finds_tree.bind (finds_pure _)

/-- Whether a member is a file and wanted. -/
def wants (t : FileTree) (here : Location) (root : Path) (wanted : Path → Bool) (q : Path) : Bool :=
  (t.contentAt here q).isSome && (q.relativeTo? root).any wanted

theorem finds_isWanted (hask : ∃ b, t.isFile? h.cwd q = .ok b)
    (hinside : ∃ below, q.relativeTo? root = some below) :
    Finds h t (isWanted root wanted q) (wants t h.cwd root wanted q) := by
  obtain ⟨b, hb⟩ := hask
  obtain ⟨q', hq'⟩ := hinside
  refine (finds_isFile? hb).bind ?_
  cases b with
  | true =>
    obtain ⟨bytes, hbytes⟩ := exists_contentAt hb
    have hbelow : Finds h t (below root q) q' := by
      rw [below, hq']
      exact finds_pure _
    have hwants : wants t h.cwd root wanted q = wanted q' := by simp [wants, hbytes, hq']
    rw [hwants]
    exact hbelow.bind (finds_pure _)
  | false =>
    have hnone : t.contentAt h.cwd q = none := by
      cases hcontent : t.contentAt h.cwd q with
      | none => rfl
      | some bytes => cases hb.symm.trans (isFile?_of_contentAt hcontent)
    simpa [wants, hnone] using finds_pure false

/-- What is wanted is remembered with its bytes. -/
theorem member_iff (ht : t.Sound) : Member t here root d wanted q bytes ↔
    q ∈ members t here d ∧ wants t here root wanted q = true ∧ t.contentAt here q = some bytes := by
  rw [mem_members ht]
  constructor
  · rintro ⟨hentry, ⟨below, hbelow, hwanted⟩, hcontent⟩
    exact ⟨hentry, by simp [wants, hcontent, hbelow, hwanted], hcontent⟩
  · rintro ⟨hentry, hwants, hcontent⟩
    rw [wants, hcontent, Bool.and_eq_true, Option.any_eq_true] at hwants
    exact ⟨hentry, hwants.2, hcontent⟩

theorem finds_capture_file (hfile : t.contentAt h.cwd (root / target) = some bytes) :
    Finds h t (capture root target wanted) ⟨root, none, [(root / target, bytes)]⟩ :=
  (finds_isFile? (isFile?_of_contentAt hfile)).bind ((finds_bytesAt hfile).bind (finds_pure _))

/-- The members of the directory that are remembered, in order. -/
def remembered (t : FileTree) (here : Location) (root d : Path) (wanted : Path → Bool) :
    List (Path × ByteArray) :=
  ((Path.sorted (members t here d)).filter (wants t here root wanted)).map fun q =>
    (q, (t.contentAt here q).getD .empty)

theorem mem_remembered (ht : t.Sound) :
    (q, bytes) ∈ remembered t here root d wanted ↔ Member t here root d wanted q bytes := by
  rw [member_iff ht]
  simp only [remembered, List.mem_map, List.mem_filter, Path.mem_sorted, Prod.mk.injEq]
  constructor
  · rintro ⟨q, ⟨hq, hwants⟩, rfl, rfl⟩
    obtain ⟨bytes, hbytes⟩ := Option.isSome_iff_exists.1 (Bool.and_eq_true_iff.1 hwants).1
    exact ⟨hq, hwants, by simp [hbytes]⟩
  · rintro ⟨hq, hwants, hcontent⟩
    exact ⟨q, ⟨hq, hwants⟩, rfl, by simp [hcontent]⟩

theorem exists_relativeTo?_of_mem_members (ht : t.Sound) (hq : q ∈ members t here d)
    (hd : ∃ below, d.relativeTo? root = some below) : ∃ below, q.relativeTo? root = some below := by
  obtain ⟨name, e, rfl, -⟩ := (mem_members ht).1 hq
  obtain ⟨below, hbelow⟩ := hd
  obtain ⟨-, rfl⟩ := Path.relativeTo?_eq_some_iff_down.1 hbelow
  exact ⟨_, by rw [Path.child_down, Path.relativeTo?_down]⟩

theorem isFile?_of_mem_members (ht : t.Sound) (hask : t.Askable here d) (hq : q ∈ members t here d) :
    ∃ b, t.isFile? here q = .ok b := by
  obtain ⟨name, e, rfl, he⟩ := (mem_members ht).1 hq
  exact hask name e he

theorem finds_capture_directory (ht : t.Sound)
    (hdir : t.isDirectory? h.cwd (root / target) = .ok true) (hask : t.Askable h.cwd (root / target))
    (hinside : ∃ below, (root / target).relativeTo? root = some below) :
    Finds h t (capture root target wanted)
      ⟨root, some (root / target), remembered t h.cwd root (root / target) wanted⟩ := by
  refine (finds_isFile? (isFile?_of_isDirectory? hdir)).bind ((finds_askTree hdir).bind
    ((finds_membersOf hdir).bind ?_))
  have hfilter : Finds h t
      ((Path.sorted (members t h.cwd (root / target))).filterM (isWanted root wanted))
      ((Path.sorted (members t h.cwd (root / target))).filter (wants t h.cwd root wanted)) := by
    refine Finds.filterM fun q hq => ?_
    rw [Path.mem_sorted] at hq
    exact finds_isWanted (isFile?_of_mem_members ht hask hq)
      (exists_relativeTo?_of_mem_members ht hq hinside)
  refine hfilter.bind (Finds.bind (Finds.mapM fun q hq => ?_) (finds_pure _))
  have hwants := (List.mem_filter.1 hq).2
  obtain ⟨bytes, hbytes⟩ := Option.isSome_iff_exists.1 (Bool.and_eq_true_iff.1 hwants).1
  rw [hbytes]
  exact (finds_bytesAt hbytes).bind (finds_pure _)

/-- Nothing stands where it was, or a file does. -/
def GoneOrFile (t : FileTree) (here : Location) (q : Path) : Prop :=
  t.status here q = .error (.errno .noEntry) ∨ ∃ bytes, t.contentAt here q = some bytes

theorem finds_differs (hq : GoneOrFile t h.cwd q) (before : ByteArray) :
    Finds h t (differs q before) (!t.hasContent h.cwd q before) := by
  refine (finds_debug _).bind (finds_tree.bind (finds_here.bind ?_))
  rcases hq with hgone | ⟨bytes, hbytes⟩
  · have hdiffers : t.hasContent h.cwd q before = false := by simp [hasContent, contentAt, hgone]
    rw [hgone, hdiffers]
    exact finds_pure _
  · obtain ⟨l, executable, hs⟩ := contentAt_eq_some_iff.1 hbytes
    have hsame : t.hasContent h.cwd q before = (bytes.data == before.data) := by
      simp [hasContent, hbytes]
    rw [hs, hsame]
    exact finds_pure _

theorem finds_isNew (s : Snapshot) (ht : t.Sound) (hask : t.Askable h.cwd d)
    (hinside : ∃ below, d.relativeTo? s.root = some below) (hq : q ∈ members t h.cwd d) :
    Finds h t (s.isNew wanted q)
      (!(s.contents.map (·.1)).contains q && wants t h.cwd s.root wanted q) := by
  unfold isNew
  split
  · next hold =>
    rw [hold]
    exact finds_pure _
  · next hold =>
    rw [Bool.not_eq_true] at hold
    rw [hold]
    exact finds_isWanted (isFile?_of_mem_members ht hask hq)
      (exists_relativeTo?_of_mem_members ht hq hinside)

/-- The snapshot of a file tells whether it holds the same bytes. -/
theorem finds_changed_file (hq : GoneOrFile t h.cwd q) (bytes : ByteArray) :
    Finds h t (changed ⟨root, none, [(q, bytes)]⟩ wanted) (!t.hasContent h.cwd q bytes) := by
  have hany : Finds h t ([(q, bytes)].anyM fun e => differs e.1 e.2)
      ([(q, bytes)].any fun e => !t.hasContent h.cwd e.1 e.2) := by
    refine Finds.anyM fun e he => ?_
    obtain rfl := List.mem_singleton.1 he
    exact finds_differs hq bytes
  rw [List.any_cons, List.any_nil, Bool.or_false] at hany
  refine hany.bind ?_
  cases t.hasContent h.cwd q bytes <;> exact finds_pure _

/-- Nothing remembered has changed and nothing wanted is new: the wanted members are the same. -/
theorem member_iff_member (ht : t.Sound) (hsame : ∀ q bytes, Member t here root d wanted q bytes →
      t'.contentAt here q = some bytes)
    (hnew : ∀ q bytes, Member t' here root d wanted q bytes →
      ∃ bytes', Member t here root d wanted q bytes') (q : Path) (bytes : ByteArray) :
    Member t here root d wanted q bytes ↔ Member t' here root d wanted q bytes := by
  constructor
  · intro hq
    have hcontent := hsame q bytes hq
    obtain ⟨name, e, rfl, l, -, he⟩ := hq.entry
    obtain ⟨l', executable, hs⟩ := contentAt_eq_some_iff.1 hcontent
    obtain ⟨e', he'⟩ := holds_of_status (ht.isEntryName he) hs
    exact ⟨⟨name, e', rfl, he'⟩, hq.wanted, hcontent⟩
  · intro hq
    obtain ⟨bytes', hbefore⟩ := hnew q bytes hq
    have hcontent := hsame q bytes' hbefore
    rw [hq.content] at hcontent
    rwa [Option.some.inj hcontent]

/-- Where nothing remembered has changed, something new is what makes the difference. -/
theorem any_new_iff (ht : t.Sound) (ht' : t'.Sound) (hsame : ∀ q bytes,
      Member t here root d wanted q bytes → t'.contentAt here q = some bytes) :
    ((members t' here d).any fun q => !((remembered t here root d wanted).map (·.1)).contains q &&
        wants t' here root wanted q) = true ↔
      ¬ ∀ q bytes, Member t here root d wanted q bytes ↔ Member t' here root d wanted q bytes := by
  simp only [List.any_eq_true, Bool.and_eq_true, Bool.not_eq_true']
  constructor
  · rintro ⟨q, hq, hold, hwants⟩ hall
    obtain ⟨bytes, hbytes⟩ := Option.isSome_iff_exists.1 (Bool.and_eq_true_iff.1 hwants).1
    have hbefore := (hall q bytes).2 ((member_iff ht').2 ⟨hq, hwants, hbytes⟩)
    have hkey := List.mem_map_of_mem (f := Prod.fst) ((mem_remembered ht).2 hbefore)
    rw [List.contains_iff_mem.2 hkey] at hold
    cases hold
  · intro hchanged
    by_contra hno
    refine hchanged (member_iff_member ht hsame fun q bytes hq => ?_)
    obtain ⟨hmem, hwants, -⟩ := (member_iff ht').1 hq
    have hold : ((remembered t here root d wanted).map (·.1)).contains q = true := by
      by_contra hnot
      exact hno ⟨q, hmem, by simpa using hnot, hwants⟩
    obtain ⟨e, he, rfl⟩ := List.mem_map.1 (List.contains_iff_mem.1 hold)
    exact ⟨e.2, (mem_remembered ht).1 he⟩

/-- The snapshot of a directory tells whether its wanted members are the same, and it is still one. -/
theorem finds_changed_directory (ht : t.Sound) (ht' : t'.Sound) {b : Bool}
    (hdir : t'.isDirectory? h.cwd d = .ok b)
    (hask : t'.Askable h.cwd d) (hinside : ∃ below, d.relativeTo? root = some below)
    (hcaptured : ∀ q bytes, Member t h.cwd root d wanted q bytes → GoneOrFile t' h.cwd q) :
    ∃ answer, Finds h t' (changed ⟨root, some d, remembered t h.cwd root d wanted⟩ wanted) answer ∧
      (answer = true ↔ (¬ ∀ q bytes, Member t h.cwd root d wanted q bytes ↔
        Member t' h.cwd root d wanted q bytes) ∨ b = false) := by
  have hdiffers : Finds h t' ((remembered t h.cwd root d wanted).anyM fun e => differs e.1 e.2)
      ((remembered t h.cwd root d wanted).any fun e => !t'.hasContent h.cwd e.1 e.2) :=
    Finds.anyM fun e he => finds_differs (hcaptured e.1 e.2 ((mem_remembered ht).1 he)) e.2
  cases hany : (remembered t h.cwd root d wanted).any
      fun e => !t'.hasContent h.cwd e.1 e.2 with
  | true =>
    rw [hany] at hdiffers
    refine ⟨true, hdiffers.bind (finds_pure _), iff_of_true rfl (.inl fun hall => ?_)⟩
    obtain ⟨⟨q, bytes⟩, he, hne⟩ := List.any_eq_true.1 hany
    have hsame := hasContent_iff.2 ((hall q bytes).1 ((mem_remembered ht).1 he)).content
    rw [hsame] at hne
    cases hne
  | false =>
    rw [hany] at hdiffers
    have hsame : ∀ q bytes, Member t h.cwd root d wanted q bytes →
        t'.contentAt h.cwd q = some bytes := by
      intro q bytes hq
      have hkept := List.any_eq_false.1 hany _ ((mem_remembered ht).2 hq)
      exact hasContent_iff.1 (by simpa using hkept)
    cases b with
    | false =>
      exact ⟨true, hdiffers.bind ((finds_askTree hdir).bind (finds_pure _)), iff_of_true rfl (.inr rfl)⟩
    | true =>
      refine ⟨_, hdiffers.bind ((finds_askTree hdir).bind ((finds_membersOf hdir).bind
        (Finds.anyM fun q hq => finds_isNew _ ht' hask hinside hq))), ?_⟩
      exact (any_new_iff ht ht' hsame).trans (by simp)

end Snapshot

end LintRunner
