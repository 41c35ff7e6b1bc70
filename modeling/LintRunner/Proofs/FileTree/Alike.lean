import LintRunner.Exec
import LintRunner.FileTree.Plant
import LintRunner.Proofs.FileTree.Sound
import Mathlib.Data.List.Perm.Subperm

/-! Trees that differ in regular files only. `Alike L t t'`: away from the places of `L` the two trees are
the same, and at these each of them has a regular file or nothing. A path leads to the same place in both;
only where it leads through one of these places does it matter whether a file is there, and then it
leads nowhere in either. -/

namespace LintRunner.FileTree

variable {L : Location → Prop} {t t' t'' : FileTree} {here l : Location} {p : Path}

/-- A regular file is there, or nothing. -/
def Plain (t : FileTree) (l : Location) : Prop :=
  t.get? l = none ∨ ∃ bytes executable, t.get? l = some (.file bytes executable)

structure Alike (L : Location → Prop) (t t' : FileTree) : Prop where
  outside : ∀ l, ¬ L l → t.get? l = t'.get? l
  before : ∀ l, L l → t.Plain l
  after : ∀ l, L l → t'.Plain l

theorem Alike.refl (hplain : ∀ l, L l → t.Plain l) : Alike L t t := ⟨fun _ _ => rfl, hplain, hplain⟩

theorem Alike.symm (ht : Alike L t t') : Alike L t' t :=
  ⟨fun l hl => (ht.outside l hl).symm, ht.after, ht.before⟩

theorem Alike.trans (ht : Alike L t t') (ht' : Alike L t' t'') : Alike L t t'' :=
  ⟨fun l hl => (ht.outside l hl).trans (ht'.outside l hl), ht.before, ht'.after⟩

theorem Plain.ne_directory (hl : t.Plain l) : t.get? l ≠ some .directory := by
  rcases hl with hnone | ⟨bytes, executable, hfile⟩
  · simp [hnone]
  · simp [hfile]

theorem Plain.ne_link (hl : t.Plain l) (target : String) : t.get? l ≠ some (.link target) := by
  rcases hl with hnone | ⟨bytes, executable, hfile⟩
  · simp [hnone]
  · simp [hfile]

theorem Alike.directory_iff (ht : Alike L t t') (l : Location) :
    t.get? l = some .directory ↔ t'.get? l = some .directory := by
  by_cases hl : L l
  · exact iff_of_false (ht.before l hl).ne_directory (ht.after l hl).ne_directory
  · rw [ht.outside l hl]

theorem Alike.link_iff (ht : Alike L t t') (l : Location) (target : String) :
    t.get? l = some (.link target) ↔ t'.get? l = some (.link target) := by
  by_cases hl : L l
  · exact iff_of_false ((ht.before l hl).ne_link target) ((ht.after l hl).ne_link target)
  · rw [ht.outside l hl]

/-- The place where a way ends, whether or not something is there. -/
def Spot.place? : Spot → Option Location
  | .found l => some l
  | .free l => some l
  | .refused _ => none

/-- Nothing is there on the way, or something that nothing can lie below. -/
def Missing (e : Errno) : Prop := e = Errno.noEntry ∨ e = Errno.notDirectory

theorem Missing.ne_linkLoop {e : Errno} (he : Missing e) : e ≠ Errno.linkLoop := by
  rcases he with rfl | rfl
  · decide
  · decide

inductive Spot.Alike (L : Location → Prop) : Spot → Spot → Prop where
  | same (s : Spot) : Spot.Alike L s s
  | ended {s s' : Spot} {l : Location} (hl : L l) (hs : s.place? = some l) (hs' : s'.place? = some l) :
    Spot.Alike L s s'
  | lost {e e' : Errno} (he : Missing e) (he' : Missing e') :
    Spot.Alike L (.refused e) (.refused e')

theorem Spot.Alike.place?_eq {s s' : Spot} (hs : Spot.Alike L s s') : s.place? = s'.place? := by
  cases hs with
  | same => rfl
  | ended _ hs hs' => rw [hs, hs']
  | lost => rfl

/-- A way that comes to a regular file, or to nothing, ends there or is lost. -/
theorem descend_plain {name : String} (hplain : t.Plain (l ++ [name])) (rest : List String) :
    ∃ s, (match t.get? (l ++ [name]) with
        | none => Descent.done (if rest = [] then .free (l ++ [name]) else .refused Errno.noEntry)
        | some (.link target) =>
          if rest = [] ∧ true = false then .done (.found (l ++ [name])) else .link l target rest
        | some _ => t.descend true (l ++ [name]) rest) = .done s ∧
      (rest = [] → s.place? = some (l ++ [name])) ∧
      (rest ≠ [] → ∃ e, Missing e ∧ s = .refused e) := by
  rcases hplain with hnone | ⟨bytes, executable, hfile⟩
  · refine ⟨if rest = [] then .free (l ++ [name]) else .refused Errno.noEntry, by simp [hnone], ?_, ?_⟩
    · intro hrest
      rw [if_pos hrest]
      rfl
    · intro hrest
      exact ⟨_, .inl rfl, if_neg hrest⟩
  · cases rest with
    | nil => exact ⟨.found (l ++ [name]), by simp [hfile, descend], fun _ => rfl, fun hrest => absurd rfl hrest⟩
    | cons next rest =>
      refine ⟨.refused Errno.notDirectory, by simp [hfile, descend], ?_, fun _ => ⟨_, .inr rfl, rfl⟩⟩
      intro hrest
      cases hrest

theorem Alike.descend (ht : Alike L t t') (l : Location) (names : List String) :
    (∃ s s', t.descend true l names = .done s ∧ t'.descend true l names = .done s' ∧
        Spot.Alike L s s') ∨
      ∃ origin target rest, t.descend true l names = .link origin target rest ∧
        t'.descend true l names = .link origin target rest := by
  induction names generalizing l with
  | nil => exact .inl ⟨_, _, rfl, rfl, .same _⟩
  | cons name rest ih =>
    rw [FileTree.descend, FileTree.descend]
    by_cases hdir : t.get? l = some .directory
    · have hdir' := (ht.directory_iff l).1 hdir
      simp only [hdir, hdir', ne_eq, not_true_eq_false, if_false]
      split
      · exact ih l
      · split
        · exact ih l.dropLast
        · split
          · exact .inl ⟨_, _, rfl, rfl, .same _⟩
          · by_cases hl : L (l ++ [name])
            · obtain ⟨s, hs, hend, hlost⟩ := descend_plain (ht.before _ hl) rest
              obtain ⟨s', hs', hend', hlost'⟩ := descend_plain (ht.after _ hl) rest
              refine .inl ⟨s, s', hs, hs', ?_⟩
              by_cases hrest : rest = []
              · exact .ended hl (hend hrest) (hend' hrest)
              · obtain ⟨e, he, rfl⟩ := hlost hrest
                obtain ⟨e', he', rfl⟩ := hlost' hrest
                exact .lost he he'
            · rw [← ht.outside _ hl]
              cases t.get? (l ++ [name]) with
              | none => exact .inl ⟨_, _, rfl, rfl, .same _⟩
              | some e =>
                cases e with
                | link target => exact .inr ⟨l, target, rest, by simp, by simp⟩
                | file bytes executable => exact ih (l ++ [name])
                | directory => exact ih (l ++ [name])
    · have hdir' : t'.get? l ≠ some .directory := fun h => hdir ((ht.directory_iff l).2 h)
      simp only [ne_eq, hdir, hdir', not_false_eq_true, if_true]
      exact .inl ⟨_, _, rfl, rfl, .same _⟩

theorem Alike.walkTo (ht : Alike L t t') (links : Nat) (l : Location) (names : List String) :
    Spot.Alike L (t.walkTo true links l names) (t'.walkTo true links l names) := by
  induction links generalizing l names with
  | zero =>
    rw [FileTree.walkTo, FileTree.walkTo]
    rcases ht.descend l names with ⟨s, s', hs, hs', halike⟩ | ⟨origin, target, rest, hlink, hlink'⟩
    · rw [hs, hs']
      exact halike
    · rw [hlink, hlink']
      exact .same _
  | succ links ih =>
    rw [FileTree.walkTo, FileTree.walkTo]
    rcases ht.descend l names with ⟨s, s', hs, hs', halike⟩ | ⟨origin, target, rest, hlink, hlink'⟩
    · rw [hs, hs']
      exact halike
    · rw [hlink, hlink']
      exact ih _ _

theorem get?_of_descend_free {follow : Bool} {names : List String} {k : Location}
    (hfree : t.descend follow l names = .done (.free k)) : t.get? k = none := by
  induction names generalizing l with
  | nil => cases hfree
  | cons name rest ih =>
    rw [FileTree.descend] at hfree
    split at hfree
    · cases hfree
    · split at hfree
      · exact ih hfree
      · split at hfree
        · exact ih hfree
        · split at hfree
          · cases hfree
          · split at hfree
            · next hnone =>
              split at hfree
              · cases hfree
                exact hnone
              · cases hfree
            · split at hfree
              · cases hfree
              · cases hfree
            · exact ih hfree

theorem get?_of_walkTo_free {follow : Bool} {links : Nat} {names : List String} {k : Location}
    (hfree : t.walkTo follow links l names = .free k) : t.get? k = none := by
  induction links generalizing l names with
  | zero =>
    rw [FileTree.walkTo] at hfree
    split at hfree
    · next s hs => exact get?_of_descend_free (hs.trans (by rw [hfree]))
    · cases hfree
  | succ links ih =>
    rw [FileTree.walkTo] at hfree
    split at hfree
    · next s hs => exact get?_of_descend_free (hs.trans (by rw [hfree]))
    · exact ih hfree

/-- The place that a path leads to, whether or not something is there. -/
def place? (t : FileTree) (here : Location) (p : Path) : Option Location := t.placeAt true here p

theorem place?_eq (t : FileTree) (here : Location) (p : Path) : t.place? here p =
    if hasNul p then none else (t.walkTo true mostLinks (originOf here p) p.parts).place? := by
  unfold place? placeAt locate
  by_cases hnul : hasNul p = true
  · rw [if_pos hnul, if_pos hnul]
  · rw [if_neg hnul, if_neg hnul]
    cases t.walkTo true mostLinks (originOf here p) p.parts with
    | found l => rfl
    | free l => rfl
    | refused e => rfl

/-- Of a path that leads to a place, all that can be known is what is there. -/
theorem status_of_place? (hp : t.place? here p = some l) :
    t.status here p = match t.get? l with
      | some e => .ok (l, e)
      | none => .error (.errno Errno.noEntry) := by
  rw [place?_eq] at hp
  split at hp
  · cases hp
  · next hnul =>
    rw [status, locate, if_neg hnul]
    cases hw : t.walkTo true mostLinks (originOf here p) p.parts with
    | found k =>
      rw [hw] at hp
      cases hp
      rfl
    | free k =>
      rw [hw] at hp
      cases hp
      rw [get?_of_walkTo_free hw]
      rfl
    | refused e =>
      rw [hw] at hp
      cases hp

theorem place?_of_status {e : Entry} (hs : t.status here p = .ok (l, e)) :
    t.place? here p = some l ∧ t.get? l = some e := by
  obtain ⟨hnul, hw, he⟩ := status_eq_ok_iff.1 hs
  rw [place?_eq, if_neg (by simp [hnul]), hw]
  exact ⟨rfl, he⟩

theorem Alike.place?_eq (ht : Alike L t t') (here : Location) (p : Path) :
    t.place? here p = t'.place? here p := by
  rw [FileTree.place?_eq, FileTree.place?_eq]
  split
  · rfl
  · exact (ht.walkTo mostLinks _ _).place?_eq

/-- A path that leads to no place is refused alike, or lost in both. -/
theorem Alike.refused (ht : Alike L t t') (hp : t.place? here p = none) :
    (∃ r, t.status here p = .error r ∧ t'.status here p = .error r) ∨
      ∃ e e', Missing e ∧ Missing e' ∧ t.status here p = .error (.errno e) ∧
        t'.status here p = .error (.errno e') := by
  by_cases hnul : hasNul p = true
  · refine .inl ⟨.nul, ?_, ?_⟩
    · rw [status, locate, if_pos hnul]
      rfl
    · rw [status, locate, if_pos hnul]
      rfl
  · have hp' := hp
    rw [ht.place?_eq] at hp'
    rw [FileTree.place?_eq, if_neg hnul] at hp hp'
    have halike := ht.walkTo mostLinks (originOf here p) p.parts
    rw [status, locate, if_neg hnul, status, locate, if_neg hnul]
    revert halike hp hp'
    generalize t.walkTo true mostLinks (originOf here p) p.parts = s
    generalize t'.walkTo true mostLinks (originOf here p) p.parts = s'
    intro hp hp' halike
    cases halike with
    | same =>
      cases s with
      | found k => cases hp
      | free k => cases hp
      | refused e => exact .inl ⟨.errno e, rfl, rfl⟩
    | ended _ hs =>
      rw [hs] at hp
      cases hp
    | @lost e e' he he' => exact .inr ⟨e, e', he, he', rfl, rfl⟩

/-- The same is at the place that the path leads to. -/
def SameAt (t t' : FileTree) (here : Location) (p : Path) : Prop :=
  ∀ l, t.place? here p = some l → t.get? l = t'.get? l

theorem Alike.status_eq (ht : Alike L t t') (hsame : SameAt t t' here p)
    (hp : t.place? here p = some l) : t.status here p = t'.status here p := by
  have hp' := hp
  rw [ht.place?_eq] at hp'
  rw [status_of_place? hp, status_of_place? hp', hsame l hp]

theorem Alike.status_directory (ht : Alike L t t') (hp : t.status here p = .ok (l, .directory)) :
    t'.status here p = .ok (l, .directory) := by
  obtain ⟨hplace, hdir⟩ := place?_of_status hp
  rw [ht.place?_eq] at hplace
  rw [status_of_place? hplace, (ht.directory_iff l).1 hdir]

theorem settles_of_missing {e : Errno} (he : Missing e) : settles (.errno e) = true := by
  rcases he with rfl | rfl
  · rfl
  · rfl

/-- A question about a path is answered alike if the same is at the place that it leads to. -/
theorem Alike.inquire (ht : Alike L t t') (ask : Entry → Bool) (hsame : SameAt t t' here p) :
    t.inquire ask here p = t'.inquire ask here p := by
  cases hp : t.place? here p with
  | some l => rw [FileTree.inquire, FileTree.inquire, ht.status_eq hsame hp]
  | none =>
    rcases ht.refused hp with ⟨r, hr, hr'⟩ | ⟨e, e', he, he', hr, hr'⟩
    · rw [FileTree.inquire, FileTree.inquire, hr, hr']
    · simp only [FileTree.inquire, hr, hr', settles_of_missing he, settles_of_missing he', if_true]

/-- Whether there is an answer at all does not depend on files. -/
theorem Alike.answered (ht : Alike L t t') (ask : Entry → Bool) {b : Bool}
    (hb : t.inquire ask here p = .ok b) : ∃ b', t'.inquire ask here p = .ok b' := by
  cases hp : t.place? here p with
  | some l =>
    rw [ht.place?_eq] at hp
    rw [FileTree.inquire, status_of_place? hp]
    cases t'.get? l with
    | some e => exact ⟨_, rfl⟩
    | none => exact ⟨false, rfl⟩
  | none =>
    rcases ht.refused hp with ⟨r, hr, hr'⟩ | ⟨e, e', he, he', hr, hr'⟩
    · rw [FileTree.inquire, hr] at hb
      rw [FileTree.inquire, hr']
      exact ⟨b, hb⟩
    · rw [FileTree.inquire, hr']
      exact ⟨false, by simp [settles_of_missing he']⟩

/-- Where a program is looked for by a text. -/
def programPlace? (t : FileTree) (here : Location) (raw : String) : Option Location :=
  if raw.toList.contains '\x00' then none
  else (t.walkTo true mostLinks (if raw.startsWith "/" then [] else here) (targetNames raw)).place?

theorem Alike.programPlace?_eq (ht : Alike L t t') (here : Location) (raw : String) :
    t.programPlace? here raw = t'.programPlace? here raw := by
  unfold programPlace?
  split
  · rfl
  · exact (ht.walkTo mostLinks _ _).place?_eq

theorem isExecutable_eq (t : FileTree) (here : Location) (raw : String) :
    Exec.isExecutable t here raw = match t.programPlace? here raw with
      | none => false
      | some l => match t.get? l with
        | some (.file _ executable) => executable
        | _ => false := by
  unfold Exec.isExecutable programPlace?
  split
  · rfl
  · cases hw : t.walkTo true mostLinks (if raw.startsWith "/" then [] else here) (targetNames raw) with
    | found l => rfl
    | free l => simp [Spot.place?, get?_of_walkTo_free hw]
    | refused e => rfl

theorem Alike.isExecutable (ht : Alike L t t') {raw : String}
    (hsame : ∀ l, t.programPlace? here raw = some l → t.get? l = t'.get? l) :
    Exec.isExecutable t here raw = Exec.isExecutable t' here raw := by
  rw [isExecutable_eq, isExecutable_eq, ← ht.programPlace?_eq]
  cases hp : t.programPlace? here raw with
  | none => rfl
  | some l => simp only [hsame l hp]

/-- What is in a directory is the same if what the paths into it lead to is. -/
theorem Alike.get?_child (ht : Alike L t t') (hsound : t.Sound) (hsound' : t'.Sound) {d : Path}
    (hd : t.status here d = .ok (l, .directory)) (hsame : ∀ name, SameAt t t' here (d.child name))
    (name : String) : t.get? (l ++ [name]) = t'.get? (l ++ [name]) := by
  have hplace {s : FileTree} (hs : s.Sound) (hd : s.status here d = .ok (l, .directory))
      {bytes : ByteArray} {executable : Bool} (hfile : s.get? (l ++ [name]) = some (.file bytes executable)) :
      s.place? here (d.child name) = some (l ++ [name]) :=
    (place?_of_status (status_child hd (hs.isEntryName hfile) hfile (by simp))).1
  by_cases hl : L (l ++ [name])
  · rcases ht.before _ hl with hnone | ⟨bytes, executable, hfile⟩
    · rcases ht.after _ hl with hnone' | ⟨bytes, executable, hfile⟩
      · rw [hnone, hnone']
      · refine hsame name _ ?_
        rw [ht.place?_eq]
        exact hplace hsound' (ht.status_directory hd) hfile
    · exact hsame name _ (hplace hsound hd hfile)
  · exact ht.outside _ hl

theorem children_perm (ht : t.Sound) (ht' : t'.Sound)
    (hsame : ∀ name, t.get? (l ++ [name]) = t'.get? (l ++ [name])) :
    (t.children l).Perm (t'.children l) := by
  have hnodup {t : FileTree} (ht : t.Sound) : (t.children l).Nodup := (ht.nodup_children l).of_map _
  refine (List.perm_ext_iff_of_nodup (hnodup ht) (hnodup ht')).2 ?_
  rintro ⟨name, e⟩
  rw [ht.mem_children, ht'.mem_children, hsame]

/-- A sound tree that leaves the top itself out. -/
structure Proper (t : FileTree) : Prop extends t.Sound where
  top : [] ∉ t.entries.map (·.1)

instance (t : FileTree) : Decidable t.Proper :=
  decidable_of_iff (t.Sound ∧ [] ∉ t.entries.map (·.1)) ⟨fun ht => ⟨ht.1, ht.2⟩, fun ht => ⟨ht.1, ht.2⟩⟩

theorem keys_setIn {es : List (Location × Entry)} (hl : l ∈ es.map (·.1)) (e : Entry) :
    (setIn l e es).map (·.1) = es.map (·.1) := by
  induction es with
  | nil => cases hl
  | cons x rest ih =>
    obtain ⟨k, y⟩ := x
    rw [setIn]
    by_cases hk : k = l
    · simp [hk]
    · have hrest : l ∈ rest.map (·.1) := by simpa [Ne.symm hk] using hl
      rw [if_neg hk, List.map_cons, List.map_cons, ih hrest]

/-- Something else in a place that is taken. -/
theorem Proper.put (ht : t.Proper) (hl : l ∈ t.entries.map (·.1)) (e : Entry) : (t.put l e).Proper := by
  have hkeys : (t.put l e).entries.map (·.1) = t.entries.map (·.1) := keys_setIn hl e
  refine ⟨⟨by rw [hkeys]; exact ht.nodup, fun x hx => ?_⟩, by rw [hkeys]; exact ht.top⟩
  have hmem : x.1 ∈ t.entries.map (·.1) := hkeys ▸ List.mem_map_of_mem hx
  obtain ⟨y, hy, hkey⟩ := List.mem_map.1 hmem
  rw [← hkey]
  exact ht.names y hy

theorem Proper.mem_entries (ht : t.Proper) {e : Entry} (he : (l, e) ∈ t.entries) :
    t.get? l = some e := by
  rcases List.eq_nil_or_concat l with rfl | ⟨front, name, rfl⟩
  · exact absurd (List.mem_map_of_mem he) ht.top
  · rw [List.concat_eq_append] at he ⊢
    exact ht.get?_eq_some_iff.2 he

theorem mem_entries_of_link {target : String} (hl : t.get? l = some (.link target)) :
    (l, Entry.link target) ∈ t.entries := by
  unfold get? at hl
  split at hl
  · cases hl
  · exact mem_entries_of_lookup hl

theorem Alike.linkCount_le (ht : Alike L t t') (hproper : t.Proper) :
    t.linkCount ≤ t'.linkCount := by
  unfold linkCount
  rw [List.countP_eq_length_filter, List.countP_eq_length_filter]
  refine (((hproper.nodup.of_map _).filter _).subperm ?_).length_le
  rintro ⟨l, e⟩ hmem
  obtain ⟨he, hlink⟩ := List.mem_filter.1 hmem
  cases e with
  | file bytes executable => cases hlink
  | directory => cases hlink
  | link target =>
    have hl := (ht.link_iff l target).1 (hproper.mem_entries he)
    exact List.mem_filter.2 ⟨mem_entries_of_link hl, rfl⟩

theorem Alike.resolveWith (ht : Alike L t t') (chase : Location → List String → Known → Resolved)
    (l : Location) (known : Known) (names : List String) :
    t.resolveWith chase l known names = t'.resolveWith chase l known names := by
  induction names generalizing l known with
  | nil => rfl
  | cons name rest ih =>
    simp only [FileTree.resolveWith, ih]
    by_cases hl : L (l ++ [name])
    · rcases ht.before _ hl with hnone | ⟨bytes, executable, hfile⟩
      · rcases ht.after _ hl with hnone' | ⟨bytes', executable', hfile'⟩
        · rw [hnone, hnone']
        · rw [hnone, hfile']
      · rcases ht.after _ hl with hnone' | ⟨bytes', executable', hfile'⟩
        · rw [hfile, hnone']
        · rw [hfile, hfile']
    · rw [ht.outside _ hl]

theorem Alike.resolveNames (ht : Alike L t t') (links : Nat) :
    t.resolveNames links = t'.resolveNames links := by
  induction links with
  | zero => rfl
  | succ links ih =>
    funext l names known
    rw [FileTree.resolveNames, FileTree.resolveNames, ht.resolveWith, ih]

theorem Alike.resolve (ht : Alike L t t') (hproper : t.Proper) (hproper' : t'.Proper)
    (here : Location) (p : Path) : t.resolve here p = t'.resolve here p := by
  have hcount : t.linkCount = t'.linkCount :=
    Nat.le_antisymm (ht.linkCount_le hproper) (ht.symm.linkCount_le hproper')
  unfold FileTree.resolve
  rw [hcount, ht.resolveNames]
  split
  · rfl
  -- only a circle of links is looked for, and there is none where a way is lost
  · dsimp only
    generalize Path.normalize _ = q
    cases hq : t.place? here q with
    | some l =>
      have hq' := hq
      rw [ht.place?_eq] at hq'
      rw [status_of_place? hq, status_of_place? hq']
      cases t.get? l with
      | none =>
        cases t'.get? l with
        | none => rfl
        | some e' => rfl
      | some e =>
        cases t'.get? l with
        | none => rfl
        | some e' => rfl
    | none =>
      rcases ht.refused hq with ⟨r, hr, hr'⟩ | ⟨e, e', hmissing, hmissing', hr, hr'⟩
      · rw [hr, hr']
      · rw [hr, hr']
        exact (if_neg hmissing.ne_linkLoop).trans (if_neg hmissing'.ne_linkLoop).symm

end LintRunner.FileTree
