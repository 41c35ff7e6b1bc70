import LintRunner.Cli.Request
import LintRunner.Pass
import LintRunner.Starter.Write

/-!
Doing what a command line asks for. The answer is the exit code of the program.
-/

namespace LintRunner.Cli

variable {σ : Type}

def usageCode : Nat := 2

def wantsColor (s : Settings) : Run σ Bool := return s.color && (← Terminal.isTerminal)

def reporterFor (s : Settings) : Run σ Reporter := do
  return {
    ascii := s.ascii
    quiet := s.quiet
    color := ← wantsColor s
    annotates := Reporter.annotatesIn (← Run.host).env }

def reported? : Failure → Option String
  | .config e => some e.message
  | .selection e => some e.message
  | .exec e => some e.message
  | _ => none

/-- The value of `act`, or the exit code after its failure has been shown. -/
def orShow {α : Type} (message? : Failure → Option String) (display : String → Run σ Unit)
    (act : Run σ α) : Run σ (Except Nat α) := do
  match ← Run.attempt act with
  | .ok a => return .ok a
  | .error e =>
    match message? e with
    | none => Run.fail e
    | some message =>
      display message
      return .error Pass.Status.error.code

def runPass (p : Pass) (s : Settings) (processors : Nat) (r : Reporter) : Run σ Pass.Exit := do
  let cwd ← Run.cwd
  let l ← Config.discover cwd s.config
  p.run l r (s.jobs.getD processors) cwd

def doPass (p : Pass) (s : Settings) (processors : Nat) : Run σ Nat := do
  let r ← reporterFor s
  match ← orShow reported? (Terminal.printFailure (!s.ascii) (some r.color))
      (runPass p s processors r) with
  | .error code => return code
  | .ok exit =>
    match exit.error with
    | none => return exit.status.code
    | some message =>
      r.error message
      return exit.status.code

def configMessage? : Failure → Option String
  | .config e => some e.message
  | _ => none

def commandRow (e : String × Config.Command) : List String :=
  [e.1, e.2.kind.text, " ".intercalate e.2.cmd]

def doList (s : Settings) : Run σ Nat := do
  match ← orShow configMessage? (Terminal.printFailure (!s.ascii) none)
      (do Config.discover (← Run.cwd) s.config) with
  | .error code => return code
  | .ok l =>
    let color ← wantsColor s
    Terminal.printInfo (!s.ascii) (some color) ("Found config file at: " ++ l.file.text)
    Terminal.printHeading color "Commands"
    Terminal.printTable ["Name", "Type", "Runs"] (l.project.commands.map commandRow)
    return Pass.Status.ok.code

def initMessage? : Failure → Option String
  | .config e => some ("Failed to initialize config files: " ++ e.message)
  | .os e => some ("Failed to initialize config files: " ++ e.message)
  | _ => none

def skippedText (p : Path) : String :=
  p.text ++ " ... already exists, skipping - delete this file if you want to regenerate it"

def showWritten (color : Bool) (w : Starter.Written) : Run σ Unit := do
  let line (text : String) : Run σ Unit := Terminal.printLine (some color) none text
  if w.written ≠ [] ∨ w.skipped ≠ [] then
    Terminal.printHeading color "Support files"
    w.written.forM fun p => line (p.text ++ " ... generated")
    w.skipped.forM fun p => line (skippedText p)
  if w.tools ≠ [] then
    Terminal.printHeading color
      ("The generated " ++ w.config.text ++ " requires these tools")
    w.tools.forM fun url => line ("  " ++ url)

def doInit (components : Option (List Starter.Component)) (path : Path) (s : Settings) :
    Run σ Nat := do
  let color ← wantsColor s
  let cwd ← Run.cwd
  let components ← match components with
    | some cs => pure cs
    | none => Starter.detect cwd
  match ← orShow initMessage? (Terminal.printFailure (!s.ascii) (some color))
      (Starter.write path components cwd) with
  | .error code => return code
  | .ok w =>
    Terminal.printInfo (!s.ascii) (some color) ("Wrote " ++ w.config.text)
    showWritten color w
    return Pass.Status.ok.code

def perform (s : Settings) (processors : Nat) : Request → Run σ Nat
  | .help => return Pass.Status.ok.code
  | .list => doList s
  | .init components path => doInit components path s
  | .pass action kind ref paths command label => do
    let mode ← Run.ofExcept .mode (Selection.Mode.ofKind kind ref)
    doPass { action, mode, paths, command, label } s processors

def run (processors : Nat) (args : List String) : Run σ Nat := do
  match read args with
  | none => return usageCode
  | some (s, request) =>
    Run.change ({ · with verbosity := s.verbosity })
    perform s processors request

end LintRunner.Cli
