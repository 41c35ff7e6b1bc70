import LintRunner.Config.Project
import LintRunner.Filter.Build
import LintRunner.Ignore.Rules
import LintRunner.Text.Utf8
import LintRunner.Toml.Document

/-!
Finding the configuration of a project. Without a file given by the user, the project is the
directory of the run if it has a configuration, and else the nearest checkout above it.
-/

namespace LintRunner.Config

structure Loaded where
  root : Path
  file : Path
  project : Project

/-- The names of a configuration file; the first is preferred. -/
def fileNames : List String := ["gemlint.toml", ".gemlint.toml"]

def preferredName : String := "gemlint.toml"

variable {σ : Type}

/-- The configuration file in a directory, or where it would be. -/
def defaultFile (directory : Path) : Run σ Path := do
  match ← (fileNames.map directory.child).findM? Run.exists? with
  | some file => return file
  | none => return directory.child preferredName

def isCheckoutRoot (directory : Path) : Run σ Bool :=
  (vcsDirectories.map directory.child).anyM Run.exists?

def findRoot (given : Option Path) (cwd : Path) : Run σ Path := do
  match given with
  | some file => Run.resolve (cwd / file.parent)
  | none =>
    if ← Run.exists? (← defaultFile cwd) then Run.resolve cwd
    else match ← (cwd :: cwd.parents).findM? isCheckoutRoot with
      | some root => Run.resolve root
      | none => Run.fail (.config (.noRoot cwd))

def ofBytes (file : Path) (bytes : ByteArray) : Except Failure Project := do
  let some text := Text.decodeStrict bytes | throw (.crash .notUtf8)
  match Toml.readDocument text with
  | .error .malformed => throw (.config (.file file .syntaxFault))
  | .error .integerTooLong => throw (.crash .integerTooLong)
  | .ok t =>
    match Project.read (.table t) with
    | .sound p => return p
    | .faulty found => throw (.config (.file file (.invalid found)))

def load (file : Path) : Run σ Project := do
  match ← Run.attempt (Run.bytesAt file) with
  | .ok bytes => Run.ofExcept id (ofBytes file bytes)
  | .error (.os e) => Run.fail (.config (.file file (.os e)))
  | .error e => Run.fail e

def discover (cwd : Path) (given : Option Path) : Run σ Loaded := do
  let root ← findRoot given cwd
  let file ← match given with
    | some file => do
      Run.debug ("Loading config from " ++ (cwd / file).text ++ " (set via flag)")
      pure (cwd / file)
    | none => do
      let file ← defaultFile root
      Run.debug ("Loading config from " ++ file.text ++ " (default location)")
      pure file
  return ⟨root, file, ← load file⟩

namespace Loaded

structure Choice where
  action : Action
  command : Option String := none
  label : Option String := none

/-- An empty label counts as none. -/
def Choice.wantedLabel (c : Choice) : String :=
  match c.label with
  | some label => if label = "" then Filter.defaultLabel else label
  | none => Filter.defaultLabel

def Choice.picks (c : Choice) (name : String) (command : Command) : Bool :=
  c.command.all (· == name) && command.hasLabel c.wantedLabel && command.kind.serves c.action

def buildFilter (root : Path) (name : String) (command : Command) : Except Failure Filter := do
  let params ← (command.params name).mapError .config
  Filter.build params root

def filters (l : Loaded) (c : Choice) : Except Failure (List Filter) :=
  (l.project.commands.filter fun e => c.picks e.1 e.2).mapM fun e => buildFilter l.root e.1 e.2

end Loaded

end LintRunner.Config
