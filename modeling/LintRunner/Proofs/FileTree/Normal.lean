import LintRunner.Path.Lexical
import LintRunner.Proofs.FileTree.Resolve

/-! Taking `..` out of a path by its text. The path leads to the same place as before, unless what a `..`
takes away with it is the name of a link: the link leads somewhere, and `..` leads up from there. -/

namespace LintRunner

namespace FileTree

variable {t : FileTree} {here l k : Location} {p : Path} {links : Nat} {x : Location × Entry}
  {name : String} {front back done names : List String}

/-- What the path ends in is a link. -/
def EndsInLink (t : FileTree) (here : Location) (p : Path) : Prop :=
  ∃ d name target, p = d.child name ∧ t.Holds here d name (.link target)

/-- The path leads up from a link: with what is before a `..` taken by its text, a link is the last of it. -/
def LeavesLink (t : FileTree) (here : Location) (p : Path) : Prop :=
  ∃ (q : Path) (back : List String), p = q.down (".." :: back) ∧ t.EndsInLink here q.normalize

/-- Into a directory and up again leads to where it began. -/
theorem walkTo_down_up (hdot : name ≠ ".") (hup : name ≠ "..")
    (hno : ∀ l target, t.walkTo true links k front = .found l → t.get? l = some .directory →
      t.get? (l ++ [name]) ≠ some (.link target))
    (hfound : t.walkTo true links k (front ++ name :: ".." :: back) = .found l) :
    t.walkTo true links k (front ++ back) = .found l := by
  obtain ⟨mid, hmid, hdir⟩ := walkTo_append hfound
  obtain ⟨left, hleft⟩ := walkTo_onward hmid
  rw [hleft] at hfound
  rcases of_walkTo_cons hfound with ⟨hname, -⟩ | ⟨hname, -⟩ | ⟨-, -, -, hnext⟩
  · exact absurd hname hdot
  · exact absurd hname hup
  · rcases hnext with ⟨-, hrest⟩ | ⟨target, -, hlink, -⟩
    · rcases of_walkTo_cons hrest with ⟨hname, -⟩ | ⟨-, hback⟩ | ⟨-, hname, -⟩
      · exact absurd hname (by decide)
      · rw [List.dropLast_concat] at hback
        cases back with
        | nil =>
          rw [walkTo, descend] at hback
          cases hback
          rwa [List.append_nil]
        | cons name back => rwa [hleft]
      · exact absurd rfl hname
    · exact absurd hlink (hno mid target hmid hdir)

/-- `done` are the names kept so far, the last first; none of them may be a link when it is taken away. -/
theorem walkTo_collapse (hdots : "." ∉ names) (hdone : "." ∉ done ∧ ".." ∉ done)
    (hno : ∀ front back, names = front ++ ".." :: back →
      ∀ init name, Path.collapse true done front = init ++ [name] →
        ∀ l target, t.walkTo true links [] init = .found l → t.get? l = some .directory →
          t.get? (l ++ [name]) ≠ some (.link target))
    (hfound : t.walkTo true links [] (done.reverse ++ names) = .found l) :
    t.walkTo true links [] (Path.collapse true done names) = .found l := by
  induction names generalizing done with
  | nil => simpa [Path.collapse] using hfound
  | cons name rest ih =>
    have hrest : "." ∉ rest := fun hmem => hdots (List.mem_cons_of_mem _ hmem)
    by_cases hup : name = ".."
    · subst hup
      cases done with
      | nil =>
        rw [Path.collapse_up_nil]
        refine ih hrest hdone (fun front back heq init last hlast => ?_) ?_
        · refine hno (".." :: front) back (by rw [heq]; rfl) init last ?_
          rwa [Path.collapse_up_nil]
        · rcases of_walkTo_cons hfound with ⟨hname, -⟩ | ⟨-, htop⟩ | ⟨-, hname, -⟩
          · exact absurd hname (by decide)
          · exact htop
          · exact absurd rfl hname
      | cons top below =>
        obtain ⟨hdot, hbelow⟩ : top ≠ "." ∧ "." ∉ below := by
          simpa [eq_comm] using hdone.1
        obtain ⟨htop, hups⟩ : top ≠ ".." ∧ ".." ∉ below := by
          simpa [eq_comm] using hdone.2
        rw [Path.collapse_up htop]
        refine ih hrest ⟨hbelow, hups⟩ (fun front back heq init last hlast => ?_) ?_
        · refine hno (".." :: front) back (by rw [heq]; rfl) init last ?_
          rwa [Path.collapse_up htop]
        · refine walkTo_down_up hdot htop ?_ (by simpa using hfound)
          exact hno [] rest rfl below.reverse top (by simp [Path.collapse])
    · have hdot : name ≠ "." := fun heq => hdots (by simp [heq])
      rw [Path.collapse_name hup]
      refine ih hrest ?_ (fun front back heq init last hlast => ?_) (by simpa using hfound)
      · simp only [List.mem_cons, not_or]
        exact ⟨⟨Ne.symm hdot, hdone.1⟩, Ne.symm hup, hdone.2⟩
      · refine hno (name :: front) back (by rw [heq]; rfl) init last ?_
        rwa [Path.collapse_name hup]

theorem hasNul_normalize (hp : hasNul p = false) : hasNul p.normalize = false := by
  unfold hasNul at hp ⊢
  rw [List.any_eq_false] at hp ⊢
  intro name hname
  rcases Path.mem_normalize hname with hmem | rfl
  · exact hp name hmem
  · decide

/-- An absolute path leads to the same place with `..` taken out of it, unless one led up from a link. -/
theorem status_normalize (hp : p.isAbsolute = true) (hdots : "." ∉ p.parts)
    (hno : ¬ t.LeavesLink here p) (hs : t.status here p = .ok x) : t.status here p.normalize = .ok x := by
  obtain ⟨l, e⟩ := x
  obtain ⟨hnul, hwalk, he⟩ := status_eq_ok_iff.1 hs
  have horigin (names : List String) : originOf here (Path.mk p.anchor names) = [] := if_pos hp
  refine status_eq_ok_iff.2 ⟨hasNul_normalize hnul, ?_, he⟩
  rw [show originOf here p = [] from horigin p.parts] at hwalk
  rw [show originOf here p.normalize = [] from horigin _, Path.normalize]
  dsimp only
  rw [hp]
  refine walkTo_collapse hdots (by simp) (fun front back heq init name hinit k target hk hdir hlink => ?_) hwalk
  have hfront : (Path.mk p.anchor front).normalize = (Path.mk p.anchor init).child name := by
    rw [Path.normalize, show (Path.mk p.anchor front).isAbsolute = true from hp, hinit]
    rfl
  have hclean : hasNul (Path.mk p.anchor front) = false := by
    unfold hasNul at hnul ⊢
    rw [heq, List.any_append, Bool.or_eq_false_iff] at hnul
    exact hnul.1
  have hinitclean : hasNul (Path.mk p.anchor init) = false := by
    have hboth := hasNul_normalize hclean
    rw [hfront, hasNul_child, Bool.or_eq_false_iff] at hboth
    exact hboth.1
  have hdown : p = (Path.mk p.anchor front).down (".." :: back) := by rw [Path.down, ← heq]
  refine hno ⟨_, back, hdown, Path.mk p.anchor init, name, target, hfront, k, ?_, hlink⟩
  exact status_eq_ok_iff.2 ⟨hinitclean, by rw [horigin]; exact hk, hdir⟩

end FileTree

end LintRunner
