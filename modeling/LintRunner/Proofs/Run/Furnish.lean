import LintRunner.Proofs.FileTree.Grown
import LintRunner.Proofs.Run.Idle

/-! Making a directory with all that are missing above it. Nothing else is changed, also where it fails
half way up; where it does not, the path leads to a directory that was there before or in which there is
nothing yet. -/

namespace LintRunner

variable {σ : Type} {h : Host σ} {w : World σ}

namespace FileTree

variable {t t' t'' : FileTree} {here l : Location} {p q : Path} {name : String}

theorem of_makeDirectory (hmade : t.makeDirectory here p = .ok t') : ∃ l, t.get? l = none ∧
    t' = t.put l .directory ∧ t'.status here p = .ok (l, .directory) ∧ (t.Nested → t'.Nested) := by
  unfold makeDirectory locate at hmade
  by_cases hnul : hasNul p = true
  · rw [if_pos hnul] at hmade
    cases hmade
  · rw [if_neg hnul] at hmade
    simp only [bind, Except.bind] at hmade
    split at hmade
    · next l hfree =>
      cases hmade
      have hnone := get?_of_walkTo_free hfree
      have hl := ne_nil_of_get?_none hnone
      refine ⟨l, hnone, rfl, status_eq_ok_iff.2 ⟨by simpa using hnul, walkTo_put_directory hfree, ?_⟩, ?_⟩
      · rw [get?_put hl, if_pos rfl]
      · intro ht
        obtain ⟨d, name, rfl, hd⟩ := parent_of_walkTo_free hfree
        exact ht.put hd (by simp [hnone]) _
    · cases hmade
    · cases hmade

/-- By a single name, nothing is missed on the way. -/
theorem walkTo_name_ne_noEntry (left : Nat) (l : Location) (name : String) :
    t.walkTo false left l [name] ≠ .refused .noEntry := by
  have hdone : ∃ s, t.descend false l [name] = .done s ∧ s ≠ .refused .noEntry := by
    rw [descend]
    split
    · exact ⟨_, rfl, by decide⟩
    · split
      · exact ⟨_, rfl, by simp⟩
      · split
        · exact ⟨_, rfl, by simp⟩
        · split
          · exact ⟨_, rfl, by decide⟩
          · cases t.get? (l ++ [name]) with
            | none => exact ⟨_, rfl, by simp⟩
            | some e =>
              cases e with
              | link target => exact ⟨_, rfl, by simp⟩
              | file bytes executable => exact ⟨_, rfl, by simp⟩
              | directory => exact ⟨_, rfl, by simp⟩
  obtain ⟨s, hs, hne⟩ := hdone
  rw [walkTo, hs]
  exact hne

/-- Where something is, a directory is not refused because something is missing on the way. -/
theorem makeDirectory_ne_noEntry {e : Entry} (hd : t.status here p.parent = .ok (l, e)) :
    t.makeDirectory here p ≠ .error (.errno .noEntry) := by
  obtain ⟨-, hwalk, -⟩ := status_eq_ok_iff.1 hd
  have hspot : t.walkTo false mostLinks (originOf here p) p.parts ≠ .refused .noEntry := by
    rcases p.parts_nil_or_child with hnil | ⟨name, hchild⟩
    · rw [hnil]
      exact Spot.noConfusion
    · obtain ⟨left, hleft⟩ := walkTo_child hwalk false name
      have hparts : p.parts = p.parent.parts ++ [name] := congrArg Path.parts hchild
      rw [hparts, show originOf here p = originOf here p.parent from rfl, hleft]
      exact walkTo_name_ne_noEntry left l name
  unfold makeDirectory locate
  split
  · simp [bind, Except.bind]
  · cases hends : t.walkTo false mostLinks (originOf here p) p.parts with
    | found k => simp [bind, Except.bind, throw, throwThe, MonadExceptOf.throw, Errno.taken, Errno.noEntry]
    | free k => simp [bind, Except.bind, pure, Except.pure]
    | refused e =>
      rw [hends] at hspot
      simpa [bind, Except.bind, throw, throwThe, MonadExceptOf.throw] using hspot

/-- One directory after the other has been made, each on the way to `p` or `p` itself. -/
inductive Furnished (here : Location) (p : Path) (t : FileTree) : FileTree → Prop where
  | same : Furnished here p t t
  | made {t' t'' : FileTree} {q : Path} (hbefore : Furnished here p t t') (hq : p.LiesIn q)
    (hmade : t'.makeDirectory here q = .ok t'') : Furnished here p t t''

theorem Furnished.grown (ht : Furnished here p t t') : Grown t t' := by
  induction ht with
  | same => exact Grown.refl t
  | made _ _ hmade ih =>
    obtain ⟨l, hnone, rfl, -⟩ := of_makeDirectory hmade
    exact ih.trans (Grown.put hnone _)

theorem Furnished.nested (ht : Furnished here p t t') (hnested : t.Nested) : t'.Nested := by
  induction ht with
  | same => exact hnested
  | made _ _ hmade ih =>
    obtain ⟨l, -, -, -, hkeeps⟩ := of_makeDirectory hmade
    exact hkeeps ih

/-- What is new is a directory, and a path on the way leads to it. -/
theorem Furnished.new (ht : Furnished here p t t') {e : Entry} (hnone : t.get? l = none)
    (he : t'.get? l = some e) : e = .directory ∧ ∃ q, p.LiesIn q ∧ t'.status here q = .ok (l, .directory) := by
  induction ht with
  | same => cases hnone.symm.trans he
  | @made _ _ q _ hq hmade ih =>
    obtain ⟨k, hk, rfl, hstatus, -⟩ := of_makeDirectory hmade
    rw [get?_put (ne_nil_of_get?_none hk)] at he
    split at he
    · next heq =>
      subst heq
      cases he
      exact ⟨rfl, q, hq, hstatus⟩
    · obtain ⟨rfl, q', hq', hstatus'⟩ := ih he
      exact ⟨rfl, q', hq', (Grown.put hk _).status hstatus'⟩

theorem Furnished.of_parent (ht : Furnished here p.parent t t') : Furnished here p t t' := by
  induction ht with
  | same => exact .same
  | made _ hq hmade ih => exact .made ih hq.of_parent hmade

theorem Furnished.once (hmade : t.makeDirectory here p = .ok t') : Furnished here p t t' :=
  .made .same (Path.liesIn_self _) hmade

/-- Below an empty directory nothing is found, unless the way leads up and out of it. -/
theorem eq_of_vacant {k : Location} (hd : t.status here p.parent = .ok (l, .directory))
    (hvacant : t.Vacant l) (hup : p.name ≠ "..")
    (hfound : t.walkTo true mostLinks (originOf here p) p.parts = .found k) : k = l := by
  obtain ⟨-, hwalk, hdir⟩ := status_eq_ok_iff.1 hd
  rcases p.parts_nil_or_child with hnil | ⟨name, hchild⟩
  · rw [Path.parent_of_nil hnil, hfound] at hwalk
    cases hwalk
    rfl
  · obtain ⟨left, hleft⟩ := walkTo_child hwalk true name
    have hparts : p.parts = p.parent.parts ++ [name] := congrArg Path.parts hchild
    have hname : name ≠ ".." := by rwa [hchild, Path.name_child] at hup
    rw [hparts, show originOf here p = originOf here p.parent from rfl, hleft, walkTo, descend,
      if_neg (not_not.2 hdir), if_neg hname, hvacant name] at hfound
    by_cases hdot : name = "."
    · rw [if_pos hdot] at hfound
      cases hfound
      rfl
    · rw [if_neg hdot, if_pos rfl] at hfound
      by_cases hlong : longestName < name.utf8ByteSize
      · rw [if_pos hlong] at hfound
        cases hfound
      · rw [if_neg hlong] at hfound
        cases hfound

/-- The path leads to a directory, which was there before or is still empty; unless it led up from what
was not there. -/
def Stands (here : Location) (p : Path) (t t' : FileTree) : Prop :=
  ∃ l, t'.status here p = .ok (l, .directory) ∧ (t.Grounded here p → t.Nested → t' = t ∨ t'.Vacant l)

theorem Stands.of_there (hp : t.isDirectory? here p = .ok true) : Stands here p t t := by
  obtain ⟨l, hl⟩ := isDirectory?_eq_true_iff.1 hp
  exact ⟨l, hl, fun _ _ => .inl rfl⟩

theorem Stands.of_made (ht : Furnished here p t t') (hmade : t'.makeDirectory here p = .ok t'') :
    Stands here p t t'' := by
  obtain ⟨l, hnone, rfl, hstatus, -⟩ := of_makeDirectory hmade
  refine ⟨l, hstatus, fun _ hnested => .inr fun name => ?_⟩
  rw [get?_put (ne_nil_of_get?_none hnone), if_neg (by simp)]
  exact (ht.nested hnested).vacant (by simp [hnone]) name

/-- What was missing is not there all at once when there is a directory for it. -/
theorem Stands.of_parent (hparent : Stands here p.parent t t')
    (hmissing : t.makeDirectory here p = .error (.errno .noEntry))
    (hp : t'.isDirectory? here p = .ok true) : Stands here p t t' := by
  obtain ⟨d, hd, hempty⟩ := hparent
  obtain ⟨l, hl⟩ := isDirectory?_eq_true_iff.1 hp
  refine ⟨l, hl, fun hgrounded hnested => ?_⟩
  rcases hempty hgrounded.parent hnested with rfl | hvacant
  · exact absurd hmissing (makeDirectory_ne_noEntry hd)
  · have hname : p.name ≠ ".." := by
      intro hup
      have hthere := hgrounded p.parent [] (Path.eq_parent_child hup (by decide))
      obtain ⟨x, hx⟩ := exists?_eq_true_iff.1 hthere
      exact absurd hmissing (makeDirectory_ne_noEntry hx)
    obtain rfl := eq_of_vacant hd hvacant hname (status_eq_ok_iff.1 hl).2.1
    exact .inr hvacant

/-- How making directories ends, and what the tree is then. -/
inductive Furnishes (here : Location) (p : Path) (t t' : FileTree) : Except Failure Unit → Prop where
  | stands (hdirs : Furnished here p t t') (hstands : Stands here p t t') : Furnishes here p t t' (.ok ())
  | refused {q : Path} {r : Refusal} (hdirs : Furnished here p t t') (hq : p.LiesIn q) :
    Furnishes here p t t' (.error (Failure.ofRefusal q r))

end FileTree

namespace Run

/-- It is made, or it is refused: because something is missing only if the tree says so. -/
theorem go_changeTree (c : Change) (f : FileTree → Location → Path → Except Refusal FileTree) (p : Path)
    (h : Host σ) (w : World σ) :
    (∃ t, f w.tree h.cwd p = .ok t ∧ (changeTree c f p).go h w = (.ok (), { w with tree := t })) ∨
      ∃ r, (changeTree c f p).go h w = (.error (Failure.ofRefusal p r), w) ∧
        (r = .errno .noEntry → f w.tree h.cwd p = .error r) := by
  unfold changeTree
  rw [go_bind, go_askTree]
  cases f w.tree h.cwd p with
  | error r => exact .inr ⟨r, rfl, fun _ => rfl⟩
  | ok t =>
    simp only [mapError_ok, go_bind, go_world, go_host]
    cases h.obstacle? c p w.tree w.mind with
    | none => exact .inl ⟨t, rfl, rfl⟩
    | some o => exact .inr ⟨.errno o.errno, rfl, fun hmissing => absurd (by simpa using hmissing) o.notMissing⟩

/-- It is made, or it is there, or it is refused. -/
theorem go_ensureDirectory (p : Path) (h : Host σ) (w : World σ) :
    (∃ t, w.tree.makeDirectory h.cwd p = .ok t ∧
        (ensureDirectory p).go h w = (.ok (), { w with tree := t })) ∨
      (w.tree.isDirectory? h.cwd p = .ok true ∧ (ensureDirectory p).go h w = (.ok (), w)) ∨
      ∃ r, (ensureDirectory p).go h w = (.error (Failure.ofRefusal p r), w) ∧
        (r = .errno .noEntry → w.tree.makeDirectory h.cwd p = .error (.errno .noEntry)) := by
  unfold ensureDirectory
  rw [go_bind_ok (go_attempt _ h w)]
  rcases go_changeTree .makeDirectory FileTree.makeDirectory p h w with ⟨t, hmade, hgo⟩ | ⟨r, hgo, hmissing⟩
  · rw [hgo]
    exact .inl ⟨t, hmade, rfl⟩
  · rw [hgo]
    cases r with
    | nul => exact .inr (.inr ⟨.nul, rfl, nofun⟩)
    | errno e =>
      dsimp only [Failure.ofRefusal]
      by_cases he : e = .noEntry
      · subst he
        exact .inr (.inr ⟨.errno .noEntry, rfl, fun _ => hmissing rfl⟩)
      · rw [if_neg he, go_bind, isDirectory?, go_askTree]
        cases hdir : w.tree.isDirectory? h.cwd p with
        | ok b =>
          cases b with
          | true => exact .inr (.inl ⟨rfl, rfl⟩)
          | false => exact .inr (.inr ⟨.errno e, rfl, by simp [he]⟩)
        | error r =>
          refine .inr (.inr ⟨r, rfl, ?_⟩)
          rw [FileTree.tooLong_of_inquire hdir]
          simp [Errno.noEntry, Errno.nameTooLong]

theorem furnishes_ensureDirectory (p : Path) (h : Host σ) (w : World σ) :
    ∃ r t, (ensureDirectory p).go h w = (r, { w with tree := t }) ∧
      FileTree.Furnishes h.cwd p w.tree t r := by
  rcases go_ensureDirectory p h w with ⟨t, hmade, hgo⟩ | ⟨hthere, hgo⟩ | ⟨r, hgo, -⟩
  · exact ⟨_, t, hgo, .stands (.once hmade) (.of_made .same hmade)⟩
  · exact ⟨_, w.tree, hgo, .stands .same (.of_there hthere)⟩
  · exact ⟨_, w.tree, hgo, .refused .same (Path.liesIn_self _)⟩

/-- Once its parent stands, the directory is seen to again. -/
theorem furnishes_again {p : Path} {t : FileTree} (hdirs : FileTree.Furnished h.cwd p.parent t w.tree)
    (hparent : FileTree.Stands h.cwd p.parent t w.tree)
    (hmissing : t.makeDirectory h.cwd p = .error (.errno .noEntry)) :
    ∃ r t', (ensureDirectory p).go h w = (r, { w with tree := t' }) ∧
      FileTree.Furnishes h.cwd p t t' r := by
  rcases go_ensureDirectory p h w with ⟨t', hmade, hgo⟩ | ⟨hthere, hgo⟩ | ⟨r, hgo, -⟩
  · exact ⟨_, t', hgo, .stands (.made hdirs.of_parent (Path.liesIn_self p) hmade)
      (.of_made hdirs.of_parent hmade)⟩
  · exact ⟨_, w.tree, hgo, .stands hdirs.of_parent (hparent.of_parent hmissing hthere)⟩
  · exact ⟨_, w.tree, hgo, .refused hdirs.of_parent (Path.liesIn_self p)⟩

theorem furnishes_ensureDirectories (levels : Nat) (p : Path) (h : Host σ) (w : World σ) :
    ∃ r t, (ensureDirectories levels p).go h w = (r, { w with tree := t }) ∧
      FileTree.Furnishes h.cwd p w.tree t r := by
  induction levels generalizing p w with
  | zero => exact furnishes_ensureDirectory p h w
  | succ levels ih =>
    unfold ensureDirectories
    rw [go_bind_ok (go_attempt _ h w)]
    rcases go_ensureDirectory p h w with ⟨t, hmade, hgo⟩ | ⟨hthere, hgo⟩ | ⟨r, hgo, hmissing⟩
    · rw [hgo]
      exact ⟨_, t, rfl, .stands (.once hmade) (.of_made .same hmade)⟩
    · rw [hgo]
      exact ⟨_, w.tree, rfl, .stands .same (.of_there hthere)⟩
    · rw [hgo]
      by_cases hr : r = .errno .noEntry
      · -- Something is missing on the way: the parent is seen to first, and then the directory again.
        subst hr
        obtain ⟨r₁, t₁, hgo₁, hparent⟩ := ih p.parent w
        dsimp only [Failure.ofRefusal]
        rw [if_pos ⟨rfl, rfl⟩]
        cases hparent with
        | refused hdirs hq =>
          rw [go_bind_error hgo₁]
          exact ⟨_, t₁, rfl, .refused hdirs.of_parent hq.of_parent⟩
        | stands hdirs hstands =>
          rw [go_bind_ok hgo₁]
          exact furnishes_again (w := { w with tree := t₁ }) hdirs hstands (hmissing rfl)
      · refine ⟨_, w.tree, ?_, .refused (q := p) (r := r) .same (Path.liesIn_self p)⟩
        cases r with
        | nul => rfl
        | errno e =>
          dsimp only [Failure.ofRefusal]
          rw [if_neg]
          · rfl
          · rintro ⟨rfl, -⟩
            exact hr rfl

/-- A directory is there in the end, or something on the way to it is refused. Other than by directories on
the way nothing has changed. -/
theorem furnishes_makeDirectories (p : Path) (h : Host σ) (w : World σ) :
    ∃ r t, (makeDirectories p).go h w = (r, { w with tree := t }) ∧
      FileTree.Furnishes h.cwd p w.tree t r := furnishes_ensureDirectories _ p h w

end Run

end LintRunner
