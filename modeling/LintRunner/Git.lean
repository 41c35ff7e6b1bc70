import LintRunner.Exec

/-!
The few questions that are put to git, and the stash that holds unstaged changes while a run looks
at staged files only. A stash is restored once, by whoever made it.
-/

namespace LintRunner

structure Git where
  cwd : Path

namespace Git

variable {σ : Type}

/-- Git itself, started like any other command. It may write what it likes on its error stream. -/
def request (g : Git) (args : List String) : Exec.Request :=
  { exe := "git", args, env := [], okExitCodes := [0], tolerated := [.anything], inDir := some g.cwd }

def answer (g : Git) (args : List String) : Run σ String := do
  match (← Run.host).git with
  | none => return (← Exec.run (g.request args)).stdout.getD ""
  | some respond =>
    let w ← Run.world
    let (outcome, tree, mind) := respond args g.cwd w.tree w.mind
    Run.change fun w => { w with tree, mind }
    Run.ofExcept (fun text => .exec (.reported text)) outcome

def ask (g : Git) (args : List String) : Run σ String := do
  let outcome ← Run.attempt (g.answer args)
  Run.record (.asked args outcome)
  Run.ofExcept id outcome

/-- The lines of an answer, without blanks around them and without empty ones. -/
def linesOf (out : String) : List String :=
  (((Text.lines out.toList).map Text.trim).filter (· ≠ [])).map String.ofList

def root? (g : Git) : Run σ (Option Path) := do
  match ← Run.attempt (g.ask ["rev-parse", "--show-toplevel"]) with
  | .ok out => return (linesOf out).head?.map Path.ofString
  | .error (.exec e) =>
    Run.debug ("Could not determine the git repository root: " ++ e.message)
    return none
  | .error e => Run.fail e

def modified (g : Git) : Run σ (List String) :=
  linesOf <$> g.ask ["diff", "--name-only", "--diff-filter=ACM", "HEAD"]

def staged (g : Git) : Run σ (List String) :=
  linesOf <$> g.ask ["diff", "--cached", "--name-only", "--diff-filter=ACM"]

def changedSince (g : Git) (ref : String) : Run σ (List String) :=
  linesOf <$> g.ask ["diff", "--name-only", "--diff-filter=ACM", ref ++ "..."]

def mergeInProgress (root : Path) : Run σ Bool := Run.exists? ((root.child ".git").child "MERGE_MODE")

def stashArgs : List String := ["stash", "--keep-index"]

def popArgs : List String := ["stash", "pop"]

def nothingToStash : String := "No local changes to save"

def mentions (part : List Char) : List Char → Bool
  | [] => part.isEmpty
  | c :: rest => part.isPrefixOf (c :: rest) || mentions part rest

def reportsStash (out : String) : Bool := !mentions nothingToStash.toList out.toList

/-- Puts unstaged changes aside. The answer says whether there are any to bring back. -/
def stash (g : Git) : Run σ Bool := do
  let out ← g.ask stashArgs
  if reportsStash out then
    Run.debug "Stashed unstaged changes"
    return true
  else
    Run.debug "No unstaged changes to stash"
    return false

def pop (g : Git) : Run σ Unit := do
  let _ ← g.ask popArgs

/-- Brings a stash back if one is held. That git could not do so is noted and no more. -/
def release (g : Git) (held : Bool) : Run σ Unit := do
  if held then
    match ← Run.attempt g.pop with
    | .ok () => return
    | .error (.exec e) => Run.log .error ("Error popping stash: " ++ e.message)
    | .error e => Run.fail e

end Git

end LintRunner
