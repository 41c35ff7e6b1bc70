import LintRunner.Proofs.FileTree.Lookup
import LintRunner.Proofs.Path.Below
import Mathlib.Data.List.Nodup

/-! Trees as a file system keeps them: no two entries in one place, and under names that can be asked
for. What is in a directory is then what can be found there. -/

namespace LintRunner.FileTree

/-- A name that an entry of a directory can have. -/
def IsEntryName (name : String) : Prop :=
  name ≠ "" ∧ name ≠ "." ∧ name ≠ ".." ∧ '/' ∉ name.toList ∧ '\x00' ∉ name.toList ∧
    name.utf8ByteSize ≤ longestName

instance : DecidablePred IsEntryName := fun _ => inferInstanceAs (Decidable (_ ∧ _))

structure Sound (t : FileTree) : Prop where
  nodup : (t.entries.map (·.1)).Nodup
  names : ∀ x ∈ t.entries, ∀ name ∈ x.1, IsEntryName name

instance (t : FileTree) : Decidable t.Sound :=
  decidable_of_iff ((t.entries.map (·.1)).Nodup ∧ ∀ x ∈ t.entries, ∀ name ∈ x.1, IsEntryName name)
    ⟨fun ht => ⟨ht.1, ht.2⟩, fun ht => ⟨ht.nodup, ht.names⟩⟩

variable {t : FileTree} {here l l' : Location} {name : String} {e : Entry} {d p : Path} {r : Refusal}

theorem get?_append_name (t : FileTree) (l : Location) (name : String) :
    t.get? (l ++ [name]) = t.entries.lookup (l ++ [name]) := by simp [get?]

theorem mem_entries_of_lookup {es : List (Location × Entry)} (he : es.lookup l = some e) :
    (l, e) ∈ es := by
  obtain ⟨front, back, rfl, -⟩ := List.lookup_eq_some_iff.1 he
  simp

theorem lookup_of_mem_entries {es : List (Location × Entry)} (hes : (es.map (·.1)).Nodup)
    (he : (l, e) ∈ es) : es.lookup l = some e := by
  obtain ⟨front, back, rfl⟩ := List.append_of_mem he
  refine List.lookup_eq_some_iff.2 ⟨front, back, rfl, ?_⟩
  intro x hx
  rw [List.map_append, List.map_cons] at hes
  have hne : x.1 ≠ l := (List.nodup_append.1 hes).2.2 x.1 (List.mem_map_of_mem hx) l (by simp)
  simpa using hne.symm

theorem Sound.get?_eq_some_iff (ht : t.Sound) :
    t.get? (l ++ [name]) = some e ↔ (l ++ [name], e) ∈ t.entries := by
  rw [get?_append_name]
  exact ⟨mem_entries_of_lookup, lookup_of_mem_entries ht.nodup⟩

theorem Sound.isEntryName (ht : t.Sound) (he : t.get? (l ++ [name]) = some e) : IsEntryName name :=
  ht.names _ (ht.get?_eq_some_iff.1 he) name (by simp)

theorem Sound.mem_children (ht : t.Sound) :
    (name, e) ∈ t.children l ↔ t.get? (l ++ [name]) = some e := by
  rw [ht.get?_eq_some_iff, children, List.mem_filterMap]
  constructor
  · rintro ⟨⟨k, x⟩, hx, hk⟩
    dsimp only at hk
    split at hk
    · next hfront =>
      cases hk
      rwa [Path.afterFront_eq_some_iff.1 hfront] at hx
    · cases hk
  · intro he
    have hfront : Path.afterFront l (l ++ [name]) = some [name] := Path.afterFront_eq_some_iff.2 rfl
    exact ⟨(l ++ [name], e), he, by simp [hfront]⟩

theorem Sound.nodup_children (ht : t.Sound) (l : Location) : ((t.children l).map (·.1)).Nodup := by
  have hpairs : t.entries.Pairwise fun x y => x.1 ≠ y.1 := List.pairwise_map.1 ht.nodup
  refine List.pairwise_map.2 (List.pairwise_filterMap.2 (hpairs.imp ?_))
  rintro ⟨k, x⟩ ⟨k', x'⟩ hne a ha b hb heq
  dsimp only at ha hb
  split at ha
  · next hk =>
    split at hb
    · next hk' =>
      cases ha
      cases hb
      apply hne
      dsimp only at heq ⊢
      rw [Path.afterFront_eq_some_iff.1 hk, Path.afterFront_eq_some_iff.1 hk', heq]
    · cases hb
  · cases ha

theorem length_le_depth (he : (l, e) ∈ t.entries) : l.length ≤ t.depth := by
  obtain ⟨es⟩ := t
  unfold depth
  dsimp only at he ⊢
  induction es with
  | nil => cases he
  | cons x es ih =>
    rw [List.foldr_cons]
    rcases List.mem_cons.1 he with rfl | he
    · exact Nat.le_max_left _ _
    · exact Nat.le_trans (ih he) (Nat.le_max_right _ _)

/-- Above a directory are directories. -/
theorem isDirectory?_of_down {names : List String} (hp : t.isDirectory? here (p.down names) = .ok true) :
    t.isDirectory? here p = .ok true := by
  induction names generalizing p with
  | nil => simpa using hp
  | cons name names ih =>
    have hchild : t.isDirectory? here (p.child name) = .ok true :=
      ih (by simpa [Path.child_eq_down] using hp)
    obtain ⟨l, hl⟩ := isDirectory?_eq_true_iff.1 hchild
    obtain ⟨l', hl'⟩ := status_parent (by simp [Path.child]) hl
    rw [Path.parent_child] at hl'
    exact isDirectory?_eq_true_iff.2 ⟨l', hl'⟩

theorem isDirectory?_parent (hp : t.isDirectory? here p = .ok true) :
    t.isDirectory? here p.parent = .ok true := by
  by_cases hparts : p.parts = []
  · obtain ⟨anchor, parts⟩ := p
    cases hparts
    exact hp
  · obtain ⟨l, hl⟩ := isDirectory?_eq_true_iff.1 hp
    obtain ⟨l', hl'⟩ := status_parent hparts hl
    exact isDirectory?_eq_true_iff.2 ⟨l', hl'⟩

/-- From where a way has led, more names are followed with the links that are left. -/
theorem walkTo_onward {links : Nat} {names : List String} {l : Location}
    (hfound : t.walkTo true links l names = .found l') : ∃ left, ∀ follow name more,
      t.walkTo follow links l (names ++ name :: more) = t.walkTo follow left l' (name :: more) := by
  induction links using Nat.strongRecOn generalizing l names with
  | ind links ih =>
    have happend := fun follow name more => t.descend_append follow l names name more
    unfold walkTo at hfound
    cases hd : t.descend true l names with
    | done s =>
      simp only [hd] at happend hfound
      cases hfound
      refine ⟨links, fun follow name more => ?_⟩
      rw [walkTo, happend, ← walkTo]
    | link origin target rest =>
      simp only [hd] at happend hfound
      cases links with
      | zero => cases hfound
      | succ links =>
        obtain ⟨left, hleft⟩ := ih links (Nat.lt_succ_self links) hfound
        refine ⟨left, fun follow name more => ?_⟩
        rw [walkTo, happend]
        simpa only [List.append_assoc] using hleft follow name more

/-- What is in a directory that was found is looked for from there, with the links that are left. -/
theorem walkTo_child {links : Nat} {names : List String} {l : Location}
    (hfound : t.walkTo true links l names = .found l') (follow : Bool) (name : String) :
    ∃ left, t.walkTo follow links l (names ++ [name]) = t.walkTo follow left l' [name] := by
  obtain ⟨left, hleft⟩ := walkTo_onward hfound
  exact ⟨left, hleft follow name []⟩

theorem hasNul_child (d : Path) (name : String) :
    hasNul (d.child name) = (hasNul d || name.toList.contains '\x00') := by
  simp [hasNul, Path.child]

/-- Where no link stands, the way on needs no other. -/
theorem status_child (hd : t.status here d = .ok (l, .directory)) (hname : IsEntryName name)
    (he : t.get? (l ++ [name]) = some e) (hlink : ∀ target, e ≠ .link target) :
    t.status here (d.child name) = .ok (l ++ [name], e) := by
  obtain ⟨hnul, hwalk, hdir⟩ := status_eq_ok_iff.1 hd
  obtain ⟨-, hdot, hup, -, hzero, hlong⟩ := hname
  refine status_eq_ok_iff.2 ⟨?_, ?_, he⟩
  · simp [hasNul_child, hnul, hzero]
  · obtain ⟨left, hleft⟩ := walkTo_child hwalk true name
    have hlast : t.descend true l [name] = .done (.found (l ++ [name])) := by
      simp only [descend, hdir, hdot, hup, Nat.not_lt.2 hlong, he, ne_eq, not_true_eq_false, if_false]
    exact hleft.trans (by rw [walkTo, hlast])

/-- The names that an entry leads through. -/
def linkNames : Entry → List String
  | .link target => targetNames target
  | _ => []

/-- No link leads through a name that is too long to be asked for. -/
def ShortLinks (t : FileTree) : Prop :=
  ∀ x ∈ t.entries, ∀ name ∈ linkNames x.2, name.utf8ByteSize ≤ longestName

instance : DecidablePred ShortLinks := fun t =>
  inferInstanceAs (Decidable (∀ x ∈ t.entries, ∀ name ∈ linkNames x.2, name.utf8ByteSize ≤ longestName))

theorem ShortLinks.targetNames (ht : t.ShortLinks) {target : String}
    (hl : t.get? l = some (.link target)) :
    ∀ name ∈ FileTree.targetNames target, name.utf8ByteSize ≤ longestName := by
  unfold get? at hl
  split at hl
  · cases hl
  · exact ht _ (mem_entries_of_lookup hl)

theorem settles_of_descend {follow : Bool} {names : List String} {errno : Errno}
    (hnames : ∀ name ∈ names, name.utf8ByteSize ≤ longestName)
    (hd : t.descend follow l names = .done (.refused errno)) : settles (.errno errno) = true := by
  fun_induction descend t follow l names
  all_goals grind [settles]

theorem link_of_descend {follow : Bool} {names rest : List String} {origin : Location}
    {target : String} (hd : t.descend follow l names = .link origin target rest) :
    (∃ k, t.get? k = some (.link target)) ∧ ∀ name ∈ rest, name ∈ names := by
  fun_induction descend t follow l names with
  | case8 l name names _ _ _ _ target hlink =>
    cases hd
    exact ⟨⟨_, hlink⟩, fun n hn => List.mem_cons_of_mem _ hn⟩
  | _ => grind

theorem walkTo_settles (ht : t.ShortLinks) {follow : Bool} {links : Nat} {names : List String}
    {errno : Errno} (hnames : ∀ name ∈ names, name.utf8ByteSize ≤ longestName)
    (hr : t.walkTo follow links l names = .refused errno) : settles (.errno errno) = true := by
  induction links generalizing l names with
  | zero =>
    unfold walkTo at hr
    split at hr
    · next hd => exact settles_of_descend hnames (hd.trans (congrArg Descent.done hr))
    · cases hr
      rfl
  | succ links ih =>
    unfold walkTo at hr
    split at hr
    · next hd => exact settles_of_descend hnames (hd.trans (congrArg Descent.done hr))
    · next hd =>
      obtain ⟨⟨k, hk⟩, hrest⟩ := link_of_descend hd
      refine ih (fun name hname => ?_) hr
      rcases List.mem_append.1 hname with hname | hname
      · exact ht.targetNames hk name hname
      · exact hnames name (hrest name hname)

theorem refused_of_status (hr : t.status here p = .error r) : settles r = true ∨
    ∃ errno, t.walkTo true mostLinks (originOf here p) p.parts = .refused errno ∧ r = .errno errno := by
  unfold status locate at hr
  split at hr
  · cases hr
    exact .inl rfl
  · simp only [bind, Except.bind] at hr
    split at hr
    · split at hr
      · cases hr
      · cases hr
        exact .inl rfl
    · cases hr
      exact .inl rfl
    · next errno hrefused =>
      cases hr
      exact .inr ⟨errno, hrefused, rfl⟩

theorem settles_of_status (hr : t.status here p = .error r)
    (hwalk : ∀ errno, t.walkTo true mostLinks (originOf here p) p.parts = .refused errno →
      settles (.errno errno) = true) : settles r = true := by
  rcases refused_of_status hr with hsettles | ⟨errno, hrefused, rfl⟩
  · exact hsettles
  · exact hwalk errno hrefused

theorem ShortLinks.status_settles (ht : t.ShortLinks)
    (hp : ∀ name ∈ p.parts, name.utf8ByteSize ≤ longestName) (hr : t.status here p = .error r) :
    settles r = true :=
  settles_of_status hr fun _ hrefused => walkTo_settles ht hp hrefused

theorem tooLong_of_descend {follow : Bool} {names : List String} {errno : Errno}
    (hd : t.descend follow l names = .done (.refused errno))
    (hsettles : settles (.errno errno) = false) : errno = .nameTooLong := by
  fun_induction descend t follow l names
  all_goals grind [settles]

theorem tooLong_of_walkTo {follow : Bool} {links : Nat} {names : List String} {errno : Errno}
    (hr : t.walkTo follow links l names = .refused errno)
    (hsettles : settles (.errno errno) = false) : errno = .nameTooLong := by
  induction links generalizing l names with
  | zero =>
    unfold walkTo at hr
    split at hr
    · next hd => exact tooLong_of_descend (hd.trans (congrArg Descent.done hr)) hsettles
    · cases hr
      cases hsettles
  | succ links ih =>
    unfold walkTo at hr
    split at hr
    · next hd => exact tooLong_of_descend (hd.trans (congrArg Descent.done hr)) hsettles
    · exact ih hr

/-- A question about a path is left without an answer for the length of a name only. -/
theorem tooLong_of_inquire {ask : Entry → Bool} (hr : t.inquire ask here p = .error r) :
    r = .errno .nameTooLong := by
  unfold inquire at hr
  split at hr
  · cases hr
  · next r' hstatus =>
    split at hr
    · cases hr
    · next hsettles =>
      cases hr
      rcases refused_of_status hstatus with hyes | ⟨errno, hrefused, rfl⟩
      · exact absurd hyes hsettles
      · rw [tooLong_of_walkTo hrefused (by simpa using hsettles)]

/-- In a directory, nothing can be told of a name that is too long. -/
theorem exists?_child_tooLong (hd : t.isDirectory? here d = .ok true) (hdot : name ≠ ".") (hup : name ≠ "..")
    (hzero : '\x00' ∉ name.toList) (hlong : longestName < name.utf8ByteSize) :
    t.exists? here (d.child name) = .error (.errno .nameTooLong) := by
  obtain ⟨l, hl⟩ := isDirectory?_eq_true_iff.1 hd
  obtain ⟨hnul, hwalk, hdir⟩ := status_eq_ok_iff.1 hl
  obtain ⟨left, hleft⟩ := walkTo_child hwalk true name
  have hlast : t.descend true l [name] = .done (.refused .nameTooLong) := by
    simp [descend, hdir, hdot, hup, hlong]
  have hrefused : t.walkTo true mostLinks (originOf here (d.child name)) (d.child name).parts =
      .refused .nameTooLong := hleft.trans (by rw [walkTo, hlast])
  have hchild : hasNul (d.child name) = false := by simp [hasNul_child, hnul, hzero]
  have hstatus : t.status here (d.child name) = .error (.errno .nameTooLong) := by
    rw [status, locate, hchild, if_neg (by simp), hrefused]
    rfl
  rw [exists?, inquire, hstatus]
  rfl

/-- In a directory, of whatever is or could be there, it can be told what it is. -/
theorem ShortLinks.status_child_settles (ht : t.ShortLinks)
    (hd : t.isDirectory? here d = .ok true) (hname : name.utf8ByteSize ≤ longestName)
    (hr : t.status here (d.child name) = .error r) : settles r = true := by
  obtain ⟨l, hl⟩ := isDirectory?_eq_true_iff.1 hd
  obtain ⟨-, hwalk, -⟩ := status_eq_ok_iff.1 hl
  obtain ⟨left, hleft⟩ := walkTo_child hwalk true name
  refine settles_of_status hr fun errno hrefused => ?_
  have hlast : t.walkTo true left l [name] = .refused errno := hleft.symm.trans hrefused
  exact walkTo_settles ht (by simpa using hname) hlast

/-- In the directory that `d` leads to, `e` stands under this name. -/
def Holds (t : FileTree) (here : Location) (d : Path) (name : String) (e : Entry) : Prop :=
  ∃ l, t.status here d = .ok (l, .directory) ∧ t.get? (l ++ [name]) = some e

theorem Holds.isDirectory? (he : t.Holds here d name e) : t.isDirectory? here d = .ok true :=
  isDirectory?_eq_true_iff.2 (he.imp fun _ hl => hl.1)

theorem Holds.status_child (ht : t.Sound) (he : t.Holds here d name e)
    (hlink : ∀ target, e ≠ .link target) : ∃ l, t.status here (d.child name) = .ok (l ++ [name], e) := by
  obtain ⟨l, hl, he⟩ := he
  exact ⟨l, FileTree.status_child hl (ht.isEntryName he) he hlink⟩

def entriesAt (t : FileTree) (here : Location) (d : Path) : List (String × Entry) :=
  match t.status here d with
  | .ok (l, .directory) => (t.children l).mergeSort fun a b => !(decide (b.1 < a.1))
  | _ => []

theorem Sound.mem_entriesAt (ht : t.Sound) :
    (name, e) ∈ t.entriesAt here d ↔ t.Holds here d name e := by
  unfold entriesAt Holds
  split
  · next l hl =>
    rw [List.mem_mergeSort, ht.mem_children]
    exact ⟨fun he => ⟨l, hl, he⟩, by rintro ⟨l', hl', he⟩; cases hl.symm.trans hl'; exact he⟩
  · next hno =>
    constructor
    · intro he
      cases he
    · rintro ⟨l, hl, -⟩
      exact absurd hl (hno l)

theorem Sound.entriesAt_sorted (ht : t.Sound) (here : Location) (d : Path) :
    (t.entriesAt here d).Pairwise fun a b => a.1 < b.1 := by
  unfold entriesAt
  split
  · next l _ =>
    have hnodup : ((t.children l).mergeSort fun a b => !(decide (b.1 < a.1))).Pairwise
        fun a b => a.1 ≠ b.1 :=
      List.pairwise_map.1 (((List.mergeSort_perm _ _).map _).nodup_iff.2 (ht.nodup_children l))
    have hsorted : ((t.children l).mergeSort fun a b => !(decide (b.1 < a.1))).Pairwise
        fun a b => (!(decide (b.1 < a.1))) = true := by
      refine List.pairwise_mergeSort (fun a b c hab hbc => ?_) (fun a b => ?_) _
      · simp only [Bool.not_eq_true', decide_eq_false_iff_not, String.not_lt] at *
        exact String.le_trans hab hbc
      · simp only [Bool.or_eq_true, Bool.not_eq_true', decide_eq_false_iff_not, String.not_lt]
        exact String.le_total a.1 b.1
    refine hnodup.imp₂ ?_ hsorted
    intro a b hne hle
    simp only [Bool.not_eq_true', decide_eq_false_iff_not, String.not_lt] at hle
    exact Std.lt_of_le_of_ne hle hne
  · exact List.Pairwise.nil

end LintRunner.FileTree
