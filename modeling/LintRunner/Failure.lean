import LintRunner.Config.Complaint
import LintRunner.FileTree.Resolve
import LintRunner.Pattern.Matcher
import LintRunner.Selection.Mode

/-!
Everything that can end a run early, by cause, and what is said of it.
-/

namespace LintRunner

inductive LoadProblem where
  | os (e : OsError)
  | syntaxFault
  | invalid (complaints : List Config.Located)
deriving DecidableEq, Repr

def LoadProblem.message : LoadProblem → String
  | os e => e.message
  | syntaxFault => "invalid TOML"
  | invalid complaints =>
    toString complaints.length ++ " validation error" ++ (if complaints.length = 1 then "" else "s")

inductive ConfigError where
  | badPattern (line : String)
  | flagsNeeded (filter : String)
  | overlappingCodes (filter : String) (codes : List Int)
  | badStderrPattern (filter pattern reason : String)
  | oldAndNew (filter : String)
  | impossibleInvocation (filter reason : String)
  | noRoot (cwd : Path)
  | file (path : Path) (problem : LoadProblem)
  | alreadyThere (path : Path)
  | noFilters (a : Action)
  | noFilterNamed (a : Action) (name : String)
  | noFilterLabelled (a : Action) (label : String)

def ConfigError.message : ConfigError → String
  | badPattern line =>
    "Invalid pattern " ++ Text.quoted line ++ ": " ++ Pattern.malformedReason line
  | flagsNeeded filter =>
    "The " ++ filter ++ " command lints and tidies, so it must define lint_flags and/or tidy_flags"
  | overlappingCodes filter codes =>
    "The " ++ filter ++ " command lists exit code(s) "
      ++ ", ".intercalate (codes.map fun (c : Int) => toString c) ++ " as both ok and lint failure"
  | badStderrPattern filter pattern reason =>
    "The " ++ filter ++ " command has an invalid ignore_stderr pattern " ++ Text.quoted pattern
      ++ ": " ++ reason
  | oldAndNew filter =>
    "The " ++ filter ++ " command mixes old command params (run_mode or chdir) "
      ++ "with new command params (invoke, working_dir, or path_args)"
  | impossibleInvocation filter reason =>
    "The " ++ filter ++ " command is misconfigured: " ++ reason
  | noRoot cwd => "Could not find a config file or VCS checkout root starting from " ++ cwd.text
  | file path problem => "Failed to load config from " ++ path.text ++ ": " ++ problem.message
  | alreadyThere path => "A file already exists at the given path: " ++ path.text
  | noFilters a => "No " ++ a.noun ++ " commands defined in your config"
  | noFilterNamed a name => "No " ++ a.noun ++ " commands match the given command name, " ++ name
  | noFilterLabelled a label => "No " ++ a.noun ++ " commands match the given label, " ++ label

inductive SelectionError where
  | pathsNotWanted (m : Selection.Mode)
  | noSuchPath (p : Path)
  | allExcluded (m : Selection.Mode)
  | outsideProject (p root : Path)
  | noRepository (root : Path)
deriving DecidableEq, Repr

def SelectionError.message : SelectionError → String
  | pathsNotWanted m => "You cannot pass an explicit list of files when looking for " ++ m.describe
  | noSuchPath p => "You passed a path that does not exist: " ++ p.text
  | allExcluded m => "All paths were excluded when looking for " ++ m.describe
  | outsideProject p root =>
    "The path " ++ p.text ++ " is not under the project root " ++ root.text
  | noRepository root => "Could not determine the git repository root for " ++ root.text

inductive FilterError where
  | wrongKind (a : Action) (filter : String) (k : Filter.Kind)
  | directoriesOnly (filter : String) (p : Path)
  | filesOnly (filter : String) (p : Path)
  | noSubRoot (filter : String) (p : Path) (roots : List Path)
  | outsideDirectory (p directory : Path)
  | vanished (p : Path)
deriving DecidableEq, Repr

def FilterError.message : FilterError → String
  | wrongKind a filter k =>
    "Cannot " ++ a.text ++ " with the " ++ filter ++ " command, which is a " ++ k.what
  | directoriesOnly filter p =>
    "The " ++ filter ++ " command runs per directory but was given the file " ++ p.text
  | filesOnly filter p =>
    "The " ++ filter ++ " command runs per file but was given the directory " ++ p.text
  | noSubRoot filter p roots =>
    "The path " ++ p.text ++ " for the " ++ filter ++ " command is not under exactly one of: "
      ++ ", ".intercalate (roots.map (·.text))
  | outsideDirectory p directory =>
    "The path " ++ p.text ++ " does not start with the prefix " ++ directory.text
  | vanished p => "Path " ++ p.text ++ " should exist but it does not"

inductive ExecError where
  | notFound (exe searched : String)
  | badExit (command : String) (code : Int) (stdout stderr : String)
  | killed (command : String) (signal : Nat)
  | badStderr (command stderr : String)
  /-- Reported by git itself. -/
  | reported (text : String)
deriving DecidableEq, Repr

def captured (heading text : String) : String :=
  if text = "" then "\n" ++ heading ++ " was empty." else "\n" ++ heading ++ ":\n" ++ text

def ExecError.message : ExecError → String
  | notFound exe searched =>
    "Could not find \"" ++ exe ++ "\" in your path (" ++ searched ++ ")"
  | badExit command code stdout stderr =>
    "Got unexpected exit code " ++ toString code ++ " from \x60" ++ command ++ "\x60."
      ++ captured "Stdout" stdout ++ captured "Stderr" stderr ++ "\n"
  | killed command signal =>
    "Ran \x60" ++ command ++ "\x60 and it was killed by signal " ++ toString signal
  | badStderr command stderr =>
    "Got unexpected stderr output from \x60" ++ command ++ "\x60:\n" ++ stderr
  | reported text => text

/-- An end that nothing in a run is prepared for. -/
inductive Crash where
  | linkCircle
  | nulInPath
  | badSet
  | clashingModes
  | countTooLarge
  | notUtf8
  | integerTooLong
  /-- A number has more digits than are ever written. -/
  | numberUnwritten
  | unfitStart
  | noWorkers
  | emptyCommand
  | outsideRoot
  /-- A heading or table closes a tag that is not open. -/
  | strayTag
  /-- Raised by the caller's own code while a selection was open. -/
  | interrupted
deriving DecidableEq, Repr

inductive StartError where
  | os (e : OsError)
  /-- No process can have such an argument or setting: there is a NUL character in it, or a `=` in the name
  of a setting. -/
  | unfit
deriving DecidableEq, Repr

inductive Failure where
  | config (e : ConfigError)
  | selection (e : SelectionError)
  | filter (e : FilterError)
  | exec (e : ExecError)
  | os (e : OsError)
  | mode (e : Selection.ModeError)
  | crash (c : Crash)

namespace Failure

def ofRefusal (p : Path) : Refusal → Failure
  | .errno e => .os ⟨e, p.text⟩
  | .nul => .crash .nulInPath

def ofStart : StartError → Failure
  | .os e => .os e
  | .unfit => .crash .unfitStart

def ofReadError : Regex.ReadError → Crash
  | .flaw _ _ => .badSet
  | .countTooLarge => .countTooLarge
  | .clashingModes => .clashingModes

def ofBadLine (b : Pattern.BadLine) : Failure :=
  match b.flaw with
  | .malformed => .config (.badPattern b.line)
  | .badSet e => .crash (ofReadError e)

end Failure

end LintRunner
