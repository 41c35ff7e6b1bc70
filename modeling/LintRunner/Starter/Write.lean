import LintRunner.Ignore.Walk
import LintRunner.Starter.Render

/-!
Finding out what a starter configuration should cover, and writing it. Nothing that is there already
is overwritten.
-/

namespace LintRunner.Starter

variable {σ : Type}

def noteFile (found : List Component) (p : Path) : Run σ (List Component) := do
  match Component.ofFile? p with
  | none => return found
  | some c =>
    if found.contains c then return found
    Run.debug ("File " ++ p.text ++ " matches component " ++ c.text)
    return c :: found

def detect (root : Path) : Run σ (List Component) := do
  let root ← Run.resolve root
  let found ← (← Walker.start root).foldFiles noteFile root []
  return Component.every.filter found.contains

structure Written where
  config : Path
  components : List Component
  written : List Path
  skipped : List Path
  tools : List String
deriving DecidableEq, Repr

/-- Each once, at its first place. -/
def distinct {α : Type} [DecidableEq α] : List α → List α
  | [] => []
  | a :: rest => a :: (distinct rest).filter (· ≠ a)

/-- The support files by path, the first for each. -/
def supportOf (components : List Component) : List SupportFile :=
  let files := components.flatMap Component.support
  (Path.sortedSet (files.map (·.path))).filterMap fun p => files.find? (·.path == p)

def writeText (p : Path) (text : String) : Run σ Unit := do
  Run.makeDirectories p.parent
  Run.write p text.toUTF8

/-- Writes a support file unless something is there. Whether it did is the answer. -/
def writeSupport (cwd : Path) (f : SupportFile) : Run σ Bool := do
  let p := cwd / f.path
  if ← Run.exists? p then return false
  writeText p (withEnds f.lines)
  if f.executable then Run.allowExecution p
  return true

def write (config : Path) (components : List Component) (cwd : Path) : Run σ Written := do
  let target := cwd / config
  if ← Run.exists? target then Run.fail (.config (.alreadyThere config))
  let components := distinct components
  writeText target (render components)
  Run.debug ("Wrote " ++ target.text ++ " for " ++ ", ".intercalate (components.map (·.text)))
  let outcomes ← (supportOf components).mapM fun f => return (f.path, ← writeSupport cwd f)
  return {
    config, components
    written := (outcomes.filter (·.2)).map (·.1)
    skipped := (outcomes.filter (!·.2)).map (·.1)
    tools := distinct (components.flatMap Component.tools) }

end LintRunner.Starter
