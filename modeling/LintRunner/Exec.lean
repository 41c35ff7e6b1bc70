import LintRunner.World

/-!
Running a command. The executable is looked up, the command is started, and the way it ends decides:
first a signal, then the exit code, then what it wrote on its error stream.
-/

namespace LintRunner

structure Tolerance where
  source : String
  regex : Regex

def Tolerance.anything : Tolerance := ⟨".*", .star (.set .none .all)⟩

def Tolerance.accepts (t : Tolerance) (stderr : String) : Bool := t.regex.found stderr.toList

namespace Exec

structure Request where
  exe : String
  args : List String
  env : List (String × String)
  okExitCodes : List Int
  tolerated : List Tolerance
  inDir : Option Path

/-- What a command that went well wrote; none where it wrote nothing. -/
structure Output where
  exitCode : Int
  stdout : Option String
  stderr : Option String
deriving DecidableEq, Repr

def Request.commandLine (r : Request) : String := " ".intercalate (r.exe :: r.args)

def overlay (env changes : List (String × String)) : List (String × String) :=
  changes.foldl (fun env (k, v) => (env.filter fun (n, _) => n != k) ++ [(k, v)]) env

def searchPath (env : List (String × String)) : String := (env.lookup "PATH").getD ""

def isExecutable (t : FileTree) (here : Location) (raw : String) : Bool :=
  if raw.toList.contains '\x00' then false
  else
    match t.walkTo true FileTree.mostLinks (if raw.startsWith "/" then [] else here)
      (FileTree.targetNames raw) with
    | .found l =>
      match t.get? l with
      | some (.file _ executable) => executable
      | _ => false
    | _ => false

def inDirectory (dir exe : String) : String :=
  if dir = "" || dir.toList.getLast? = some '/' then dir ++ exe else dir ++ "/" ++ exe

/-- Where the executable may be. A name with a slash stands for itself alone. -/
def candidates (exe searched : String) : List String :=
  if exe.toList.contains '/' then [exe]
  else if searched = "" then []
  else (Text.fields ':' searched.toList).map fun dir => inDirectory (String.ofList dir) exe

def lookup? (t : FileTree) (here : Location) (exe searched : String) : Option String :=
  (candidates exe searched).find? (isExecutable t here)

def someText (s : String) : Option String := if s = "" then none else some s

def classify (r : Request) (c : Completed) : Except ExecError Output :=
  match c.ending with
  | .signalled n => .error (.killed r.commandLine n)
  | .exited code =>
    if code ∉ r.okExitCodes then .error (.badExit r.commandLine code c.stdout c.stderr)
    else if c.stderr ≠ "" ∧ ¬ r.tolerated.any (·.accepts c.stderr) then
      .error (.badStderr r.commandLine c.stderr)
    else .ok ⟨code, someText c.stdout, someText c.stderr⟩

variable {σ : Type}

def spawn (s : Spawn) : Run σ Completed := do
  let h ← Run.host
  let w ← Run.world
  let (outcome, tree, mind) := h.spawn s w.tree w.mind
  Run.change fun w => { w with tree, mind }
  Run.record (.spawned s outcome)
  Run.ofExcept Failure.ofStart outcome

def logEnd (r : Request) (c : Completed) : Run σ Unit := do
  match c.ending with
  | .signalled n =>
    Run.debug ("Ran " ++ r.commandLine ++ " which exited because of signal " ++ toString n)
  | .exited code =>
    Run.debug ("Ran " ++ r.commandLine ++ " and got exit code of " ++ toString code)
    if code ∈ r.okExitCodes then
      if c.stdout ≠ "" then Run.debug ("Stdout was:\n" ++ c.stdout)
      if c.stderr ≠ "" then Run.debug ("Stderr was:\n" ++ c.stderr)

def run (r : Request) : Run σ Output := do
  let env := overlay (← Run.host).env r.env
  let searched := searchPath env
  match lookup? (← Run.tree) (← Run.here) r.exe searched with
  | none => Run.fail (.exec (.notFound r.exe searched))
  | some exe =>
    let cwd ← Run.resolve (r.inDir.getD (← Run.cwd))
    Run.debug ("Running command [" ++ r.commandLine ++ "] with cwd = " ++ cwd.text)
    let c ← spawn ⟨exe :: r.args, cwd, env⟩
    logEnd r c
    Run.ofExcept .exec (classify r c)

end Exec

end LintRunner
