import LintRunner.Git
import LintRunner.Ignore.Walk
import LintRunner.Path.Lexical

/-!
Choosing the files of a run: by walking the project, from paths given by the user, or from what git
reports. What the project excludes, and what version control keeps for itself, is never chosen.
-/

namespace LintRunner

structure Selector where
  mode : Selection.Mode
  /-- The project; all files chosen are named from here. -/
  root : Path
  /-- Where paths given by the user start. -/
  cwd : Path
  excluder : Matcher
  git : Git

namespace Selector

variable {σ : Type}

def holding : Run σ Holding := return (← Run.world).holding

def hold (f : Holding → Holding) : Run σ Unit := Run.change fun w => { w with holding := f w.holding }

/-- Prepares a choice of files. Git is asked from the project unless told otherwise. -/
def start (mode : Selection.Mode) (root : Path) (cwd : Option Path) (exclude : List String)
    (git : Option Git) : Run σ Selector := do
  let root ← Run.resolve root
  let cwd ← Run.resolve (cwd.getD (← Run.cwd))
  let excluder ← Run.ofExcept Failure.ofBadLine (Matcher.compile root (exclude ++ vcsDirectories))
  hold fun _ => {}
  return ⟨mode, root, cwd, excluder, git.getD ⟨root⟩⟩

/-- The path as the project names it, by its text alone. -/
def relativeToRoot? (s : Selector) (p : Path) : Except SelectionError Path :=
  match (s.cwd / p).normalize.relativeTo? s.root with
  | some q => .ok q
  | none => .error (.outsideProject p s.root)

def relativeToRoot (s : Selector) (p : Path) : Run σ Path :=
  Run.ofExcept .selection (s.relativeToRoot? p)

def addFound (s : Selector) (files : List Path) (found : Path) : Run σ (List Path) := do
  let p ← s.relativeToRoot found
  return if s.excluder.covers p false then files else files ++ [p]

def walkFiles (s : Selector) (base : Path) : Run σ (List Path) := do
  (← Walker.start s.root).foldFiles s.addFound base []

def filesAt (s : Selector) (requested : Path) : Run σ (List Path) := do
  let full := s.cwd / requested
  unless ← Run.exists? full do Run.fail (.selection (.noSuchPath requested))
  let p ← s.relativeToRoot full
  let isDirectory ← Run.isDirectory? full
  if s.excluder.covers p isDirectory then
    Run.debug ("Skipping excluded path " ++ p.text)
    return []
  else if isDirectory then s.walkFiles (← Run.resolve full)
  else return [p]

def explicitFiles (s : Selector) (requested : List Path) : Run σ (List Path) := do
  Run.debug "Using the list of files passed from the command line"
  return (← requested.mapM s.filesAt).flatten

/-- The top of the repository, asked for once. -/
def repositoryRoot (s : Selector) : Run σ Path := do
  match (← holding).root with
  | some root => return root
  | none =>
    match ← s.git.root? with
    | none => Run.fail (.selection (.noRepository s.root))
    | some root =>
      let root ← Run.resolve root
      hold ({ · with root := some root })
      return root

/-- The file that git means by an entry, if it is there, in the project and not excluded. -/
def fileReported (s : Selector) (top : Path) (entry : String) : Run σ (List Path) := do
  let full := top / Path.ofString entry
  if ← Run.exists? full then
    match s.relativeToRoot? full with
    | .error _ =>
      Run.debug ("Ignoring " ++ entry ++ " because it is outside the project root")
      return []
    | .ok p => return if s.excluder.covers p false then [] else [p]
  else
    Run.debug ("The file at " ++ entry ++ " was deleted so it will be ignored")
    return []

def filesReported (s : Selector) (entries : List String) : Run σ (List Path) := do
  let top ← s.repositoryRoot
  return (← entries.mapM (s.fileReported top)).flatten

/-- Puts unstaged changes aside, unless a merge is going on or it has been done already. -/
def stashUnstaged (s : Selector) : Run σ Unit := do
  let top ← s.repositoryRoot
  if ← Git.mergeInProgress top then
    Run.debug "A merge is in progress; not stashing unstaged changes"
  else if (← holding).stash.isNone then
    let active ← s.git.stash
    hold ({ · with stash := some active })

def candidates (s : Selector) (requested : List Path) : Run σ (List Path) := do
  match s.mode with
  | .all => s.walkFiles s.root
  | .paths => s.explicitFiles requested
  | .modified => s.filesReported (← s.git.modified)
  | .changedSince ref _ => s.filesReported (← s.git.changedSince ref)
  | .staged => s.filesReported (← s.git.staged)
  | .stagedWithStash =>
    s.stashUnstaged
    s.filesReported (← s.git.staged)

/-- The files chosen, in order and each once; none if git has nothing to report. -/
def select (s : Selector) (requested : List Path) : Run σ (Option (List Path)) := do
  if requested ≠ [] ∧ s.mode ≠ .paths then Run.fail (.selection (.pathsNotWanted s.mode))
  Run.debug ("Selecting " ++ s.mode.describe)
  let files := Path.sortedSet (← s.candidates requested)
  if files ≠ [] then return some files
  else if s.mode.usesGit then return none
  else Run.fail (.selection (.allExcluded s.mode))

def close (s : Selector) : Run σ Unit := do
  match (← holding).stash with
  | none => return
  | some active =>
    hold ({ · with stash := some false })
    s.git.release active
    hold ({ · with stash := none })

end Selector

end LintRunner
