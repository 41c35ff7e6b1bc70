import LintRunner.Path.Basic

/-!
Taking `..` out of a path by its text alone, without asking where links lead.
-/

namespace LintRunner.Path

/-- `done` holds the names kept so far, last first. Above an anchor there is nothing to leave. -/
def collapse (anchored : Bool) : List String → List String → List String
  | done, [] => done.reverse
  | done, p :: rest =>
    if p = ".." then
      match done with
      | [] => collapse anchored (if anchored then [] else [".."]) rest
      | top :: below => collapse anchored (if top = ".." then ".." :: done else below) rest
    else collapse anchored (p :: done) rest

def normalize (p : Path) : Path := { p with parts := collapse p.isAbsolute [] p.parts }

theorem collapse_name {anchored : Bool} {name : String} {done rest : List String} (hname : name ≠ "..") :
    collapse anchored done (name :: rest) = collapse anchored (name :: done) rest := by
  simp [collapse, hname]

theorem collapse_up {anchored : Bool} {top : String} {below rest : List String} (htop : top ≠ "..") :
    collapse anchored (top :: below) (".." :: rest) = collapse anchored below rest := by
  simp [collapse, htop]

theorem collapse_up_nil (rest : List String) : collapse true [] (".." :: rest) = collapse true [] rest := by
  simp [collapse]

theorem collapse_of_no_dots {anchored : Bool} {done parts : List String} (h : ".." ∉ parts) :
    collapse anchored done parts = done.reverse ++ parts := by
  induction parts generalizing done with
  | nil => simp [collapse]
  | cons p rest ih =>
    have hp : p ≠ ".." := fun e => h (by simp [e])
    have hr : ".." ∉ rest := fun m => h (by simp [m])
    simp [collapse, hp, ih hr]

theorem normalize_of_no_dots {p : Path} (h : ".." ∉ p.parts) : p.normalize = p := by
  simp [normalize, collapse_of_no_dots h]

theorem collapse_anchored_no_dots {done parts : List String} (h : ".." ∉ done) :
    ".." ∉ collapse true done parts := by
  induction parts generalizing done with
  | nil => simpa [collapse] using h
  | cons p rest ih =>
    simp only [collapse]
    split
    · cases done with
      | nil => exact ih (by simp)
      | cons top below =>
        have ht : top ≠ ".." := fun e => h (by simp [e])
        have hb : ".." ∉ below := fun m => h (by simp [m])
        simpa [ht] using ih hb
    · next hp => exact ih (by simp [h, Ne.symm hp])

theorem normalize_no_dots {p : Path} (h : p.isAbsolute = true) : ".." ∉ p.normalize.parts := by
  have := @collapse_anchored_no_dots [] p.parts (by simp)
  simpa [normalize, h] using this

theorem mem_collapse {anchored : Bool} {name : String} {done parts : List String}
    (hname : name ∈ collapse anchored done parts) : name ∈ done ∨ name ∈ parts ∨ name = ".." := by
  fun_induction collapse anchored done parts
  all_goals grind

theorem mem_normalize {p : Path} {name : String} (hname : name ∈ p.normalize.parts) :
    name ∈ p.parts ∨ name = ".." := by
  simpa using mem_collapse hname

end LintRunner.Path
