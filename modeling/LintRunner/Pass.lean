import LintRunner.Config.Loaded
import LintRunner.Duration
import LintRunner.Filter.Invocation
import LintRunner.Group
import LintRunner.Report
import LintRunner.Selection.Selector

/-!
One pass over a project: the filters that take part are found and the files chosen before anything
is started; then each filter in turn is started for all its targets, whatever becomes of the others.
-/

namespace LintRunner

structure Pass where
  action : Action
  mode : Selection.Mode
  paths : List Path := []
  command : Option String := none
  label : Option String := none

namespace Pass

inductive Status where
  | ok
  | failures
  | error
deriving DecidableEq, Repr

def Status.code : Status → Nat
  | ok => 0
  | failures => 1
  | error => 127

structure Exit where
  status : Status
  message : Option String := none
  error : Option String := none
deriving DecidableEq, Repr

/-- What became of a target: none if the filter does not apply to it. -/
inductive Result where
  | linted (o : Filter.LintOutcome)
  | tidied (o : Filter.TidyOutcome)
  | failed (reason : String)
deriving DecidableEq, Repr

def noFilesMessage : String := "No files found"

variable {σ : Type}

def choice (p : Pass) : Config.Loaded.Choice := ⟨p.action, p.command, p.label⟩

def noFiltersError (p : Pass) : ConfigError :=
  match p.command, p.label with
  | some name, _ => .noFilterNamed p.action name
  | none, some label => .noFilterLabelled p.action label
  | none, none => .noFilters p.action

def filters (p : Pass) (l : Config.Loaded) : Except Failure (List Filter) :=
  match l.filters p.choice with
  | .ok [] => .error (.config p.noFiltersError)
  | r => r

/-- The failures that a target keeps to itself, by what is said of them. -/
def recorded? : Failure → Option String
  | .exec e => some e.message
  | .filter e => some e.message
  | .os e => some e.message
  | _ => none

def attemptTarget (a : Action) (f : Filter) (scope : Filter.Scope) (t : Target) :
    Run σ (Option Result) := do
  match a with
  | .lint => return (← f.lint t.path t.files scope).map .linted
  | .tidy => return (← f.tidy t.path t.files scope).map .tidied

def runTarget (a : Action) (f : Filter) (scope : Filter.Scope) (t : Target) :
    Run σ (Option Result) := do
  match ← Run.attempt (attemptTarget a f scope t) with
  | .ok r => return r
  | .error e =>
    match recorded? e with
    | none => Run.fail e
    | some reason =>
      Run.debug (f.name ++ " failed for " ++ t.path.text ++ ": " ++ reason)
      return some (.failed reason)

def failedPaths (f : Filter) (scope : Filter.Scope) (t : Target) : List Path :=
  if scope = .files then [t.path]
  else match t.files.filter f.covers with
    | [] => [t.path]
    | ps => ps

def failure? (f : Filter) (scope : Filter.Scope) (t : Target) : Result → Option FailedTarget
  | .failed reason => some ⟨f.configKey, failedPaths f scope t, reason⟩
  | .linted o =>
    if o.passed then none else some ⟨f.configKey, failedPaths f scope t, "linting failed"⟩
  | .tidied _ => none

def report (r : Reporter) (f : Filter) (scope : Filter.Scope) (t : Target) (result : Result) :
    Run σ Unit :=
  let summary := f.pathsSummary t.path t.files scope
  match result with
  | .failed _ => r.broken f.name summary
  | .linted o =>
    if o.passed then r.passed f.name summary
    else r.lintFailed f.name summary (failedPaths f scope t) o.stdout o.stderr
  | .tidied .changed => r.tidied f.name summary
  | .tidied .unchanged => r.unchanged f.name summary
  | .tidied .indeterminate => r.maybeChanged f.name summary

/-- Every target is attempted; only then does the first failure count that none keeps to itself. -/
def runTargets (a : Action) (f : Filter) (scope : Filter.Scope) (targets : List Target) :
    Run σ (List (Target × Result)) := do
  let attempts ← targets.mapM fun t => Run.attempt do return (t, ← runTarget a f scope t)
  let results ← attempts.mapM (Run.ofExcept id)
  return results.filterMap fun (t, r) => r.map (t, ·)

def countText (n : Nat) : String := toString n ++ " path" ++ (if 1 < n then "s" else "")

def runFilter (a : Action) (r : Reporter) (workers : Int) (f : Filter) (files : List Path)
    (groups : List Group) : Run σ (List FailedTarget) := do
  let scope ← f.resolveScope files
  let started ← Run.now
  if workers ≤ 0 then Run.fail (.crash .noWorkers)
  let results ← runTargets a f scope (Target.pathMap scope files groups)
  if results ≠ [] then
    Run.info (a.title ++ " with " ++ f.name ++ " on " ++ countText results.length
      ++ ", elapsed time = " ++ Duration.describe ((← Run.now) - started))
  results.forM fun (t, result) => report r f scope t result
  return results.filterMap fun (t, result) => failure? f scope t result

/-- Notes the settings of a filter. They are put into words even where nobody reads the note. -/
def announce (f : Filter) : Run σ Unit := do
  match f.describe? with
  | none => Run.fail (.crash .numberUnwritten)
  | some settings => Run.debug ("Command config for " ++ f.name ++ ": " ++ settings)

def runFilters (a : Action) (r : Reporter) (workers : Int) (files : List Path) :
    List Filter → Run σ (List FailedTarget)
  | [] => return []
  | f :: rest => do
    announce f
    let failed ← runFilter a r workers f files (Group.make files)
    return failed ++ (← runFilters a r workers files rest)

def exitOf (a : Action) (r : Reporter) : List FailedTarget → Exit
  | [] => { status := .ok }
  | failed => { status := .failures, error := some (r.summary a.noun failed) }

/-- The part of a pass during which a stash may be held. -/
def overSelection (p : Pass) (r : Reporter) (workers : Int) (fs : List Filter) (s : Selector) :
    Run σ Exit := do
  match ← s.select p.paths with
  | none =>
    r.noFiles noFilesMessage
    return { status := .ok, message := some noFilesMessage }
  | some files => return exitOf p.action r (← runFilters p.action r workers files fs)

def run (p : Pass) (l : Config.Loaded) (r : Reporter) (workers : Int) (cwd : Path) :
    Run σ Exit := do
  r.starting p.action.title p.mode.describe
  let fs ← Run.ofExcept id (p.filters l)
  let s ← Selector.start p.mode l.root (some cwd) l.project.excludes none
  Run.ensuring (p.overSelection r workers fs s) s.close

end Pass

end LintRunner
