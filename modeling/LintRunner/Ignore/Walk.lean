import LintRunner.Ignore.Rules

/-!
Listing the files below a directory, without those that are ignored. Rules are inherited from the
directories above; what lies in a directory that is ignored is not looked at, and links to
directories are not followed.
-/

namespace LintRunner

def findGitRoot {σ : Type} (start : Path) : Run σ (Option Path) :=
  (start :: start.parents).findM? fun p => Run.exists? (p.child ".git")

structure Walker where
  root : Path
  gitRoot : Option Path

namespace Walker

variable {σ : Type}

def start (root : Path) : Run σ Walker := return ⟨root, ← findGitRoot root⟩

def loadIfFile (source directory : Path) : Run σ (List IgnoreFile) := do
  if ← Run.isFile? source then return (← IgnoreFile.load source directory).toList
  else return []

/-- The rules kept in a directory itself. Those that are for git alone come first, and only count
inside a repository. -/
def rulesIn (w : Walker) (directory : Path) : Run σ (List IgnoreFile) := do
  let forGit ←
    if w.gitRoot.isSome then loadIfFile (directory.child ".gitignore") directory else pure []
  return forGit ++ (← loadIfFile (directory.child ".ignore") directory)

def steps (top : Path) : List String → List Path
  | [] => [top]
  | name :: rest => top :: steps (top.child name) rest

def inherited (w : Walker) (base : Path) : Run σ (List IgnoreFile) := do
  let top := w.gitRoot.getD w.root
  let own ← match w.gitRoot with
    | some git => loadIfFile (((git.child ".git").child "info").child "exclude") git
    | none => pure []
  match base.parent.relativeTo? top with
  | none => return own
  | some below =>
    return own ++ (← (steps top below.parts).mapM w.rulesIn).flatten

/-- What is directly below a directory, by name; nothing if there is no such directory. -/
def listing (directory : Path) : Run σ (List (String × Entry)) := do
  match (← Run.tree).status (← Run.here) directory with
  | .ok (l, .directory) =>
    return ((← Run.tree).children l).mergeSort fun a b => !(decide (b.1 < a.1))
  | _ => return []

def leadsToDirectory (t : FileTree) (here : Location) (p : Path) : Bool :=
  match t.isDirectory? here p with
  | .ok b => b
  | .error _ => false

def isLink : Entry → Bool
  | .link _ => true
  | _ => false

def admits (rules : List IgnoreFile) (directory : Path) : Run σ Bool := do
  if vcsDirectories.contains directory.name then return false
  else if isIgnored directory rules true then
    Run.debug ("Skipping ignored directory " ++ directory.text)
    return false
  else return true

/-- Takes every file below `directory` into account, those in it first; `levels` bounds how deep the
search goes. -/
def foldBelow {α : Type} (w : Walker) (step : α → Path → Run σ α) :
    Nat → List IgnoreFile → Path → α → Run σ α
  | 0, _, _, acc => return acc
  | levels + 1, above, directory, acc => do
    let entries ← listing directory
    let rules := above ++ (← w.rulesIn directory)
    let t ← Run.tree
    let here ← Run.here
    let (dirs, others) := entries.partition fun e => leadsToDirectory t here (directory.child e.1)
    let kept ← dirs.filterM fun e => admits rules (directory.child e.1)
    let own := (others.map fun e => directory.child e.1).filter (!isIgnored · rules false)
    let acc ← own.foldlM step acc
    (kept.filter (!isLink ·.2)).foldlM
      (fun acc e => w.foldBelow step levels rules (directory.child e.1) acc) acc

/-- Takes every file below `base` that is not ignored into account. `base` itself is always looked
into. -/
def foldFiles {α : Type} (w : Walker) (step : α → Path → Run σ α) (base : Path) (acc : α) :
    Run σ α := do
  let rules ← (← w.inherited base).mapM (·.release base)
  w.foldBelow step ((← Run.tree).depth + 1) rules base acc

def walk (w : Walker) (base : Path) : Run σ (List Path) :=
  w.foldFiles (fun acc p => return acc ++ [p]) base []

end Walker

end LintRunner
