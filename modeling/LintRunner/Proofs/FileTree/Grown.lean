import LintRunner.Proofs.FileTree.Alike

/-! Trees to which something has been added. `Grown t t'`: whatever is in `t` is in `t'` too. A way that
comes to something in `t` comes to the same in `t'`. -/

namespace LintRunner.FileTree

variable {t t' t'' : FileTree} {here l k : Location} {p d : Path} {name : String} {e : Entry} {follow : Bool}

def Grown (t t' : FileTree) : Prop := ∀ l e, t.get? l = some e → t'.get? l = some e

theorem Grown.refl (t : FileTree) : Grown t t := fun _ _ he => he

theorem Grown.trans (ht : Grown t t') (ht' : Grown t' t'') : Grown t t'' :=
  fun l e he => ht' l e (ht l e he)

theorem ne_nil_of_get?_none (hl : t.get? l = none) : l ≠ [] := by
  rintro rfl
  cases hl

/-- Nothing is lost where only a place that was free is not as it was. -/
theorem Grown.outside (ht : Grown t t') (hl : t'.get? l = none)
    (hothers : ∀ k, k ≠ l → t''.get? k = t'.get? k) : Grown t t'' := by
  intro k x hk
  have hbetween := ht k x hk
  rw [hothers]
  · exact hbetween
  · rintro rfl
    cases hl.symm.trans hbetween

theorem Grown.put (hl : t.get? l = none) (e : Entry) : Grown t (t.put l e) :=
  (Grown.refl t).outside hl fun k hk => by rw [get?_put (ne_nil_of_get?_none hl), if_neg hk]

/-- It ends at something, or goes on through a link. -/
def Descent.Arrives : Descent → Prop
  | .done (.found _) => True
  | .done _ => False
  | .link .. => True

theorem Grown.descend (ht : Grown t t') {names : List String}
    (harrives : (t.descend follow l names).Arrives) :
    t'.descend follow l names = t.descend follow l names := by
  induction names generalizing l with
  | nil => rfl
  | cons name rest ih =>
    rw [FileTree.descend] at harrives ⊢
    conv_rhs => rw [FileTree.descend]
    by_cases hdir : t.get? l = some .directory
    · simp only [hdir, ht l _ hdir, ne_eq, not_true_eq_false, if_false] at harrives ⊢
      split
      · next hdot => exact ih (by simpa only [hdot, if_true] using harrives)
      · next hdot =>
        simp only [hdot, if_false] at harrives
        split
        · next hup => exact ih (by simpa only [hup, if_true] using harrives)
        · next hup =>
          simp only [hup, if_false] at harrives
          split
          · rfl
          · next hlong =>
            simp only [hlong, if_false] at harrives
            cases he : t.get? (l ++ [name]) with
            | none =>
              rw [he] at harrives
              by_cases hrest : rest = []
              · simp only [hrest, if_true] at harrives
                cases harrives
              · simp only [hrest, if_false] at harrives
                cases harrives
            | some e =>
              rw [he] at harrives
              rw [ht _ _ he]
              cases e with
              | link target => rfl
              | file bytes executable => exact ih harrives
              | directory => exact ih harrives
    · simp only [ne_eq, hdir, not_false_eq_true, if_true] at harrives
      cases harrives

theorem Grown.walkTo (ht : Grown t t') {links : Nat} {names : List String}
    (hfound : t.walkTo follow links l names = .found k) : t'.walkTo follow links l names = .found k := by
  induction links generalizing l names with
  | zero =>
    rw [FileTree.walkTo] at hfound ⊢
    split at hfound
    · next s hs =>
      subst hfound
      rw [ht.descend (by rw [hs]; trivial), hs]
    · cases hfound
  | succ links ih =>
    rw [FileTree.walkTo] at hfound ⊢
    split at hfound
    · next s hs =>
      subst hfound
      rw [ht.descend (by rw [hs]; trivial), hs]
    · next origin target rest hlink =>
      rw [ht.descend (by rw [hlink]; trivial), hlink]
      exact ih hfound

/-- Where something is found, the same is found later. -/
theorem Grown.status (ht : Grown t t') (hs : t.status here p = .ok (l, e)) :
    t'.status here p = .ok (l, e) := by
  obtain ⟨hnul, hwalk, he⟩ := status_eq_ok_iff.1 hs
  exact status_eq_ok_iff.2 ⟨hnul, ht.walkTo hwalk, ht l e he⟩

theorem Grown.exists? (ht : Grown t t') (hp : t.exists? here p = .ok true) :
    t'.exists? here p = .ok true := by
  obtain ⟨x, hx⟩ := exists?_eq_true_iff.1 hp
  exact exists?_eq_true_iff.2 ⟨x, ht.status hx⟩

/-- A link in the middle of a way is followed in any case. -/
theorem descend_link {names rest : List String} {origin : Location} {target : String}
    (hlink : t.descend follow l names = .link origin target rest) :
    t.descend true l names = .link origin target rest := by
  fun_induction FileTree.descend t follow l names
  all_goals simp_all [FileTree.descend]

/-- A way that ends at a free place comes out of a directory. -/
theorem parent_of_descend_free {names : List String} (hfree : t.descend follow l names = .done (.free k)) :
    ∃ d name, k = d ++ [name] ∧ t.get? d = some .directory := by
  fun_induction FileTree.descend t follow l names with
  | case1 => cases hfree
  | case2 => cases hfree
  | case3 l rest hdir ih => exact ih hfree
  | case4 l rest hdir hdot ih => exact ih hfree
  | case5 => cases hfree
  | case6 l name rest hdir hdot hup hlong hnone =>
    split at hfree
    · cases hfree
      exact ⟨l, name, rfl, not_not.1 hdir⟩
    · cases hfree
  | case7 => cases hfree
  | case8 => cases hfree
  | case9 l name rest hdir hdot hup hlong e hlink he ih => exact ih hfree

theorem parent_of_walkTo_free {links : Nat} {names : List String}
    (hfree : t.walkTo follow links l names = .free k) :
    ∃ d name, k = d ++ [name] ∧ t.get? d = some .directory := by
  induction links generalizing l names with
  | zero =>
    rw [FileTree.walkTo] at hfree
    split at hfree
    · next s hs => exact parent_of_descend_free (hs.trans (by rw [hfree]))
    · cases hfree
  | succ links ih =>
    rw [FileTree.walkTo] at hfree
    split at hfree
    · next s hs => exact parent_of_descend_free (hs.trans (by rw [hfree]))
    · exact ih hfree

/-- Once a directory is there, the way leads to it. -/
theorem descend_put_directory {names : List String} (hnone : t.get? k = none)
    (hfree : t.descend follow l names = .done (.free k)) :
    (t.put k .directory).descend true l names = .done (.found k) := by
  have hgrown := Grown.put hnone .directory
  fun_induction FileTree.descend t follow l names with
  | case1 => cases hfree
  | case2 => cases hfree
  | case3 l rest hdir ih =>
    rw [FileTree.descend, if_neg (not_not.2 (hgrown l _ (not_not.1 hdir))), if_pos rfl]
    exact ih hfree
  | case4 l rest hdir hdot ih =>
    rw [FileTree.descend, if_neg (not_not.2 (hgrown l _ (not_not.1 hdir))), if_neg hdot, if_pos rfl]
    exact ih hfree
  | case5 => cases hfree
  | case6 l name rest hdir hdot hup hlong he =>
    split at hfree
    · next hrest =>
      cases hfree
      subst hrest
      rw [FileTree.descend, if_neg (not_not.2 (hgrown l _ (not_not.1 hdir))), if_neg hdot, if_neg hup,
        if_neg hlong, get?_put (ne_nil_of_get?_none hnone), if_pos rfl]
      rfl
    · cases hfree
  | case7 => cases hfree
  | case8 => cases hfree
  | case9 l name rest hdir hdot hup hlong e hlink he ih =>
    rw [FileTree.descend, if_neg (not_not.2 (hgrown l _ (not_not.1 hdir))), if_neg hdot, if_neg hup,
      if_neg hlong, hgrown _ _ he]
    cases e with
    | link target => exact absurd rfl (hlink target)
    | file bytes executable => exact ih hfree
    | directory => exact ih hfree

theorem walkTo_put_directory {links : Nat} {names : List String}
    (hfree : t.walkTo follow links l names = .free k) :
    (t.put k .directory).walkTo true links l names = .found k := by
  have hnone := get?_of_walkTo_free hfree
  induction links generalizing l names with
  | zero =>
    rw [FileTree.walkTo] at hfree ⊢
    split at hfree
    · next s hs => rw [descend_put_directory hnone (hs.trans (by rw [hfree]))]
    · cases hfree
  | succ links ih =>
    rw [FileTree.walkTo] at hfree ⊢
    split at hfree
    · next s hs => rw [descend_put_directory hnone (hs.trans (by rw [hfree]))]
    · next origin target rest hlink =>
      have hlink' := descend_link hlink
      have hgrown := Grown.put hnone .directory
      rw [hgrown.descend (by rw [hlink']; trivial), hlink']
      exact ih hfree

def Nested (t : FileTree) : Prop :=
  ∀ l name e, t.get? (l ++ [name]) = some e → t.get? l = some .directory

theorem nested_iff : t.Nested ↔ ∀ x ∈ t.entries, t.get? x.1.dropLast = some .directory := by
  constructor
  · rintro ht ⟨l, e⟩ hx
    rcases List.eq_nil_or_concat' l with rfl | ⟨l, name, rfl⟩
    · rfl
    · rw [List.dropLast_concat]
      cases hlookup : t.entries.lookup (l ++ [name]) with
      | none => exact absurd (List.lookup_eq_none_iff.1 hlookup _ hx) (by simp)
      | some e' => exact ht l name e' (by rw [get?_append_name, hlookup])
  · intro ht l name e he
    rw [get?_append_name] at he
    simpa using ht _ (mem_entries_of_lookup he)

instance : DecidablePred Nested := fun _ => decidable_of_iff' _ nested_iff

/-- Nothing is below this place. -/
def Vacant (t : FileTree) (l : Location) : Prop := ∀ name, t.get? (l ++ [name]) = none

theorem Nested.vacant (ht : t.Nested) (hl : t.get? l ≠ some .directory) : t.Vacant l := by
  intro name
  cases he : t.get? (l ++ [name]) with
  | none => rfl
  | some e => exact absurd (ht l name e he) hl

/-- An entry may be put in a directory, though not over one. -/
theorem Nested.put (ht : t.Nested) (hd : t.get? l = some .directory)
    (hk : t.get? (l ++ [name]) ≠ some .directory) (e : Entry) : (t.put (l ++ [name]) e).Nested := by
  intro m other x hx
  have hne : l ++ [name] ≠ [] := by simp
  rw [get?_put hne] at hx ⊢
  split at hx
  · next heq =>
    obtain ⟨rfl, -⟩ := List.append_inj' heq rfl
    rw [if_neg (by simp)]
    exact hd
  · have hm := ht m other x hx
    rw [if_neg]
    · exact hm
    · rintro rfl
      exact hk hm

theorem Plain.ne_nil (hl : t.Plain l) : l ≠ [] := by
  rintro rfl
  exact hl.ne_directory rfl

theorem alike_put (hl : t.Plain l) (bytes : ByteArray) (executable : Bool) :
    Alike (· = l) t (t.put l (.file bytes executable)) := by
  refine ⟨fun k hk => ?_, ?_, ?_⟩
  · rw [get?_put hl.ne_nil, if_neg hk]
  · rintro _ rfl
    exact hl
  · rintro _ rfl
    exact .inr ⟨bytes, executable, by rw [get?_put hl.ne_nil, if_pos rfl]⟩

theorem status_put_file (hp : t.place? here p = some l) (hl : t.Plain l) (bytes : ByteArray)
    (executable : Bool) :
    (t.put l (.file bytes executable)).status here p = .ok (l, .file bytes executable) := by
  rw [(alike_put hl bytes executable).place?_eq] at hp
  rw [status_of_place? hp, get?_put hl.ne_nil, if_pos rfl]

/-- What takes the place of a file lies where the file lay. -/
theorem Nested.put_over (ht : t.Nested) {bytes : ByteArray} {executable : Bool}
    (hfile : t.get? l = some (.file bytes executable)) (e : Entry) : (t.put l e).Nested := by
  rcases List.eq_nil_or_concat' l with rfl | ⟨d, name, rfl⟩
  · cases hfile
  · exact ht.put (ht d name _ hfile) (by simp [hfile]) e

/-- What opening leaves: the file that the path leads to is empty, and it is new or was there already. -/
theorem of_openFile (hopened : t.openFile here p = .ok t') :
    ∃ l executable, t'.status here p = .ok (l, .file .empty executable) ∧
      (∀ k, k ≠ l → t'.get? k = t.get? k) ∧ (t.Nested → t'.Nested) ∧
      (t.get? l = none ∧ executable = false ∨
        ∃ old, t.status here p = .ok (l, .file old executable)) := by
  unfold openFile locate at hopened
  by_cases hnul : hasNul p = true
  · rw [if_pos hnul] at hopened
    cases hopened
  · rw [if_neg hnul] at hopened
    simp only [bind, Except.bind] at hopened
    split at hopened
    · next l hfree =>
      cases hopened
      have hnone := get?_of_walkTo_free hfree
      have hplain : t.Plain l := .inl hnone
      have hplace : t.place? here p = some l := by
        rw [place?_eq, if_neg hnul, hfree]
        rfl
      refine ⟨l, false, status_put_file hplace hplain .empty false,
        (fun k hk => ((alike_put hplain .empty false).outside k hk).symm), fun ht => ?_, .inl ⟨hnone, rfl⟩⟩
      obtain ⟨d, name, rfl, hd⟩ := parent_of_walkTo_free hfree
      exact ht.put hd (by simp [hnone]) _
    · cases hopened
    · next l hfound =>
      split at hopened
      · next old executable hfile =>
        cases hopened
        have hstatus : t.status here p = .ok (l, .file old executable) :=
          status_eq_ok_iff.2 ⟨by simpa using hnul, hfound, hfile⟩
        have hplain : t.Plain l := .inr ⟨old, executable, hfile⟩
        refine ⟨l, executable, status_put_file (place?_of_status hstatus).1 hplain .empty executable,
          (fun k hk => ((alike_put hplain .empty executable).outside k hk).symm),
          fun ht => ht.put_over hfile _, .inr ⟨old, hstatus⟩⟩
      · cases hopened

/-- Other bytes in a file that a path leads to change nothing else. -/
theorem of_refill {bytes : ByteArray} {executable : Bool}
    (hp : t.status here p = .ok (l, .file bytes executable)) (new : ByteArray) :
    (t.refill here p new).status here p = .ok (l, .file new executable) ∧
      (∀ k, k ≠ l → (t.refill here p new).get? k = t.get? k) ∧ (t.Nested → (t.refill here p new).Nested) := by
  obtain ⟨hplace, hfile⟩ := place?_of_status hp
  have hplain : t.Plain l := .inr ⟨bytes, executable, hfile⟩
  unfold refill
  rw [hp]
  exact ⟨status_put_file hplace hplain new executable,
    fun k hk => ((alike_put hplain new executable).outside k hk).symm, fun ht => ht.put_over hfile _⟩

/-- What a path that ends by leading up comes to is a directory. -/
theorem Nested.name_ne_up (ht : t.Nested) {bytes : ByteArray} {executable : Bool}
    (hp : t.status here p = .ok (l, .file bytes executable)) : p.name ≠ ".." := by
  intro hup
  obtain ⟨-, hwalk, hfile⟩ := status_eq_ok_iff.1 hp
  have hparts : p.parts = p.parent.parts ++ [".."] :=
    congrArg Path.parts (Path.eq_parent_child hup (by decide))
  rw [hparts] at hwalk
  obtain ⟨d, hd, hdir⟩ := walkTo_append hwalk
  obtain ⟨left, hleft⟩ := walkTo_child hd true ".."
  rw [hleft, FileTree.walkTo, FileTree.descend, if_neg (not_not.2 hdir), if_neg (by decide),
    if_pos rfl] at hwalk
  cases hwalk
  rcases List.eq_nil_or_concat' d with rfl | ⟨k, name, rfl⟩
  · cases hfile
  · rw [List.dropLast_concat, ht k name _ hdir] at hfile
    cases hfile

theorem allowExecution_of_status {bytes : ByteArray} {executable : Bool}
    (hp : t.status here p = .ok (l, .file bytes executable)) :
    t.allowExecution here p = .ok (t.put l (.file bytes true)) := by
  rw [allowExecution, hp]
  rfl

def Grounded (t : FileTree) (here : Location) (p : Path) : Prop :=
  ∀ (q : Path) (back : List String), p = q.down (".." :: back) → t.exists? here q = .ok true

theorem grounded_of_not_up (hup : ".." ∉ p.parts) : t.Grounded here p := by
  rintro q back rfl
  simp at hup

/-- Whatever leads somewhere does so step by step. -/
theorem grounded_of_status (hp : t.status here p = .ok (l, e)) : t.Grounded here p := by
  rintro q back rfl
  obtain ⟨hnul, hwalk, -⟩ := status_eq_ok_iff.1 hp
  obtain ⟨k, hk, hdir⟩ := walkTo_append hwalk
  refine exists?_eq_true_iff.2 ⟨(k, .directory), status_eq_ok_iff.2 ⟨?_, hk, hdir⟩⟩
  unfold hasNul at hnul ⊢
  rw [Path.down_parts, List.any_append, Bool.or_eq_false_iff] at hnul
  exact hnul.1

theorem Grounded.mono (hp : t.Grounded here p)
    (hkeeps : ∀ q, t.exists? here q = .ok true → t'.exists? here q = .ok true) : t'.Grounded here p :=
  fun q back heq => hkeeps q (hp q back heq)

theorem Grounded.parent (hp : t.Grounded here p) : t.Grounded here p.parent := by
  intro q back heq
  obtain ⟨names, hnames⟩ := p.exists_eq_parent_down
  exact hp q (back ++ names) (by rw [hnames, heq, Path.down_down, List.cons_append])

theorem Grounded.join {q : Path} (hp : t.Grounded here p) (hq : q.anchor = .relative)
    (hup : ".." ∉ q.parts) : t.Grounded here (p / q) := by
  intro r back heq
  have hdown : p.down q.parts = r.down (".." :: back) := (Path.join_of_relative hq).symm.trans heq
  rcases Path.down_eq_down hdown with ⟨between, -, hparts⟩ | ⟨between, hbelow, hparts⟩
  · rw [hparts] at hup
    simp at hup
  · cases between with
    | nil =>
      rw [List.nil_append] at hparts
      rw [← hparts] at hup
      simp at hup
    | cons name between =>
      obtain ⟨rfl, -⟩ := List.cons_eq_cons.1 hparts
      exact hp r between hbelow

end LintRunner.FileTree
