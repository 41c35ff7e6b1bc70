import LintRunner.FileTree.Lookup

/-! Whatever has something below it is a directory, links or no links on the way. -/

namespace LintRunner.FileTree

variable {t : FileTree} {here : Location}

/-- More names at the end of a way: they are followed from where the way led, or the way was not whole and
is not whole now. -/
theorem descend_append (follow : Bool) (l : Location) (names : List String) (name : String)
    (more : List String) :
    match t.descend true l names with
    | .done (.found l') => t.descend follow l (names ++ name :: more) = t.descend follow l' (name :: more)
    | .done _ => ∃ e, t.descend follow l (names ++ name :: more) = .done (.refused e)
    | .link origin target rest =>
      t.descend follow l (names ++ name :: more) = .link origin target (rest ++ name :: more) := by
  induction names generalizing l with
  | nil => rfl
  | cons n rest ih =>
    rw [List.cons_append, descend, descend]
    by_cases hl : t.get? l = some .directory
    · simp only [hl, ne_eq, not_true_eq_false, if_false]
      by_cases hdot : n = "."
      · simpa only [hdot, if_true] using ih l
      · simp only [hdot, if_false]
        by_cases hup : n = ".."
        · simpa only [hup, if_true] using ih l.dropLast
        · simp only [hup, if_false]
          by_cases hlong : longestName < n.utf8ByteSize
          · simp only [hlong, if_true]
            exact ⟨_, rfl⟩
          · simp only [hlong, if_false]
            cases he : t.get? (l ++ [n]) with
            | none =>
              by_cases hrest : rest = []
              · simp [hrest]
              · simp [hrest]
            | some e =>
              cases e with
              | link target => simp
              | file bytes executable => exact ih (l ++ [n])
              | directory => exact ih (l ++ [n])
    · simp only [hl, ne_eq, not_false_eq_true, if_true]
      exact ⟨_, rfl⟩

theorem walkTo_append {links : Nat} {l l₂ : Location} {names more : List String} {name : String}
    (hfound : t.walkTo true links l (names ++ name :: more) = .found l₂) :
    ∃ l', t.walkTo true links l names = .found l' ∧ t.get? l' = some .directory := by
  induction links using Nat.strongRecOn generalizing l names with
  | ind links ih =>
    have happend := t.descend_append true l names name more
    unfold walkTo at hfound ⊢
    cases hd : t.descend true l names with
    | done s =>
      rw [hd] at happend
      cases s with
      | found l' =>
        refine ⟨l', rfl, ?_⟩
        by_cases hl' : t.get? l' = some .directory
        · exact hl'
        · rw [happend, descend, if_pos hl'] at hfound
          cases hfound
      | free l' =>
        obtain ⟨e, he⟩ := happend
        rw [he] at hfound
        cases hfound
      | refused e' =>
        obtain ⟨e, he⟩ := happend
        rw [he] at hfound
        cases hfound
    | link origin target rest =>
      rw [hd] at happend
      rw [happend] at hfound
      cases links with
      | zero => cases hfound
      | succ links =>
        refine ih links (Nat.lt_succ_self links) (l := if target.startsWith "/" then [] else origin) ?_
        rwa [List.append_assoc]

theorem status_eq_ok_iff {p : Path} {l : Location} {e : Entry} :
    t.status here p = .ok (l, e) ↔ hasNul p = false ∧
      t.walkTo true mostLinks (originOf here p) p.parts = .found l ∧ t.get? l = some e := by
  unfold status locate
  cases hasNul p with
  | true => simp [bind, Except.bind]
  | false =>
    cases hw : t.walkTo true mostLinks (originOf here p) p.parts with
    | found k =>
      simp only [bind, Except.bind, Bool.false_eq_true, if_false, true_and, Spot.found.injEq]
      cases hk : t.get? k with
      | none =>
        constructor
        · rintro ⟨⟩
        · rintro ⟨rfl, he⟩
          rw [hk] at he
          cases he
      | some e' =>
        constructor
        · rintro ⟨⟩
          exact ⟨rfl, hk⟩
        · rintro ⟨rfl, he⟩
          rw [hk] at he
          cases he
          rfl
    | free k => simp [bind, Except.bind, throw, throwThe, MonadExceptOf.throw]
    | refused e' => simp [bind, Except.bind, throw, throwThe, MonadExceptOf.throw]

/-- Where something is, there is a directory around it. -/
theorem status_parent {p : Path} (hp : p.parts ≠ []) {l : Location} {e : Entry}
    (hs : t.status here p = .ok (l, e)) : ∃ l', t.status here p.parent = .ok (l', .directory) := by
  obtain ⟨hnul, hw, -⟩ := status_eq_ok_iff.1 hs
  have hparts : p.parts = p.parent.parts ++ [p.parts.getLast hp] :=
    (List.dropLast_concat_getLast hp).symm
  rw [hparts] at hw
  obtain ⟨l', hl', hd⟩ := walkTo_append hw
  refine ⟨l', status_eq_ok_iff.2 ⟨?_, hl', hd⟩⟩
  unfold hasNul at hnul ⊢
  rw [hparts, List.any_append, Bool.or_eq_false_iff] at hnul
  exact hnul.1

/-- Only of what is there anything is true. -/
theorem inquire_eq_true_iff {ask : Entry → Bool} {p : Path} : t.inquire ask here p = .ok true ↔
    ∃ l e, t.status here p = .ok (l, e) ∧ ask e = true := by
  unfold inquire
  cases t.status here p with
  | error r =>
    dsimp only
    split <;> simp
  | ok x => simp [Prod.ext_iff, and_assoc]

/-- Only where a path leads matters. -/
theorem inquire_congr {ask : Entry → Bool} {p q : Path} (hsame : t.status here p = t.status here q) :
    t.inquire ask here p = t.inquire ask here q := by rw [inquire, inquire, hsame]

theorem exists?_eq_true_iff {p : Path} :
    t.exists? here p = .ok true ↔ ∃ x, t.status here p = .ok x := by
  simp [exists?, inquire_eq_true_iff]

theorem isFile?_eq_true_iff {p : Path} : t.isFile? here p = .ok true ↔
    ∃ l bytes executable, t.status here p = .ok (l, .file bytes executable) := by
  rw [isFile?, inquire_eq_true_iff]
  constructor
  · rintro ⟨l, e, hs, he⟩
    cases e with
    | file bytes executable => exact ⟨l, bytes, executable, hs⟩
    | directory => cases he
    | link target => cases he
  · rintro ⟨l, bytes, executable, hs⟩
    exact ⟨l, _, hs, rfl⟩

theorem isDirectory?_eq_true_iff {p : Path} :
    t.isDirectory? here p = .ok true ↔ ∃ l, t.status here p = .ok (l, .directory) := by
  rw [isDirectory?, inquire_eq_true_iff]
  constructor
  · rintro ⟨l, e, hs, he⟩
    cases e with
    | directory => exact ⟨l, hs⟩
    | file bytes executable => cases he
    | link target => cases he
  · rintro ⟨l, hs⟩
    exact ⟨l, _, hs, rfl⟩

theorem isDirectory?_of_isFile? {p : Path} (hp : t.isFile? here p = .ok true) :
    t.isDirectory? here p = .ok false := by
  obtain ⟨l, bytes, executable, hs⟩ := isFile?_eq_true_iff.1 hp
  simp [isDirectory?, inquire, hs, Entry.isDirectory]

theorem isFile?_of_isDirectory? {p : Path} (hp : t.isDirectory? here p = .ok true) :
    t.isFile? here p = .ok false := by
  obtain ⟨l, hs⟩ := isDirectory?_eq_true_iff.1 hp
  simp [isFile?, inquire, hs, Entry.isFile]

/-- The directory of a file is none itself. -/
theorem isFile?_parent {p : Path} (hparts : p.parts ≠ []) (hp : t.isFile? here p = .ok true) :
    t.isFile? here p.parent = .ok false := by
  obtain ⟨l, bytes, executable, hs⟩ := isFile?_eq_true_iff.1 hp
  obtain ⟨l', hparent⟩ := status_parent hparts hs
  simp [isFile?, inquire, hparent, Entry.isFile]

end LintRunner.FileTree
