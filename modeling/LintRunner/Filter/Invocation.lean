import LintRunner.Filter.Build
import LintRunner.Snapshot

/-!
Running a filter over a target: whether it applies, where its command runs, what stands on the
command line, and what became of it.
-/

namespace LintRunner.Filter

variable {σ : Type} (f : Filter)

/-- The scope for this run, from how many of the selected files the filter is for. -/
def scopeOf (files : List Path) : Scope :=
  let matching := files.filter f.covers
  f.params.invoke.scopeFor matching.length (Path.sortedSet (matching.map (·.parent))).length

def resolveScope (files : List Path) : Run σ Scope := do
  let scope := f.scopeOf files
  Run.debug (f.name ++ " runs with scope " ++ scope.text ++ " for "
    ++ toString (files.filter f.covers).length ++ " matching file(s)")
  return scope

def appliesToFile (p : Path) : Run σ Bool := do
  if f.excluder.covers p false then
    Run.debug ("File " ++ p.text ++ " is excluded for the " ++ f.name ++ " command")
    return false
  else return f.includer.covers p false

/-- A directory counts if it is included itself, or if one of its files is. -/
def appliesToDirectory (p : Path) (files : List Path) : Run σ Bool := do
  if f.excluder.covers p true then
    Run.debug ("Directory " ++ p.text ++ " is excluded for the " ++ f.name ++ " command")
    return false
  else if f.includer.covers p true then return true
  else match files.find? f.covers with
    | some member =>
      Run.debug (p.text ++ " is included for the " ++ f.name ++ " command because it contains "
        ++ member.text)
      return true
    | none =>
      Run.debug (p.text ++ " is not included for the " ++ f.name
        ++ " command because none of its files are")
      return false

def applies (p : Path) (files : List Path) (scope : Scope) : Run σ Bool :=
  match scope with
  | .files => f.appliesToFile p
  | _ => f.appliesToDirectory p files

def checkScope (p : Path) (scope : Scope) : Run σ Unit := do
  match scope with
  | .dirs =>
    if ← Run.isFile? (f.root / p) then Run.fail (.filter (.directoriesOnly f.name p))
  | .files =>
    if ← Run.isDirectory? (f.root / p) then Run.fail (.filter (.filesOnly f.name p))
  | .root => return

def workingDirFor (p : Path) (scope : Scope) : Except FilterError Path :=
  match f.params.workingDir with
  | .root => .ok f.root
  | .dir => .ok (f.root / (if scope = .files then p.parent else p))
  | .changeTo q => .ok (f.root / q)
  | .subRoots roots =>
    match roots.filter fun r => p = r ∨ r ∈ p.parents with
    | [r] => .ok (f.root / r)
    | _ => .error (.noSubRoot f.name p roots)

def relativeText (directory p : Path) : Except FilterError String :=
  match (f.root / p).relativeTo? directory with
  | some q => .ok q.text
  | none => .error (.outsideDirectory p directory)

def itemsFor (p : Path) (files : List Path) (scope : Scope) : List Path :=
  let members := if scope = .files then [p] else Path.sorted (files.filter f.covers)
  if f.params.pathArgs.namesFiles then members
  else if scope = .dirs then [p]
  else Path.sortedSet (members.map (·.parent))

def renderPaths (p : Path) (files : List Path) (scope : Scope) (directory : Path) :
    Except FilterError (List String) :=
  match f.params.pathArgs with
  | .none => .ok []
  | .dot => .ok ["."]
  | style =>
    if style.isAbsolute then .ok ((f.itemsFor p files scope).map fun item => (f.root / item).text)
    else (f.itemsFor p files scope).mapM (f.relativeText directory)

def flagsFor : Action → List String
  | .lint => f.params.lintFlags
  | .tidy => f.params.tidyFlags

/-- Each path, after its flag if there is one. -/
def flagged (path : String) : List String :=
  match f.params.pathFlag with
  | some flag => if flag = "" then [path] else [flag, path]
  | none => [path]

def commandLine (paths : List String) (a : Action) : List String :=
  f.cmd ++ f.flagsFor a ++ paths.flatMap f.flagged

def requireKind (a : Action) : Run σ Unit := do
  unless f.kind.serves a do Run.fail (.filter (.wrongKind a f.name f.kind))

def summaryForLog (paths : List Path) : String :=
  let shown := " ".intercalate ((paths.take 3).map (·.text))
  if paths.length ≤ 3 then shown
  else shown ++ " ... and " ++ toString (paths.length - 3) ++ " more"

def requestFor (a : Action) (p : Path) (files : List Path) (scope : Scope) :
    Except Failure Exec.Request := do
  let directory ← (f.workingDirFor p scope).mapError .filter
  let paths ← (f.renderPaths p files scope directory).mapError .filter
  match f.commandLine paths a with
  | [] => throw (.crash .emptyCommand)
  | exe :: args =>
    return {
      exe, args
      env := f.params.env
      okExitCodes := f.acceptedCodes
      tolerated := f.tolerated
      inDir := some directory }

def start (a : Action) (p : Path) (files : List Path) (scope : Scope) : Run σ Exec.Output := do
  let r ← Run.ofExcept id (f.requestFor a p files scope)
  Run.info (a.title ++ " [" ++ summaryForLog files ++ "] with " ++ f.name ++ " in ["
    ++ (r.inDir.getD .here).text ++ "] using command [" ++ r.commandLine ++ "]")
  Exec.run r

def lintOutcome (o : Exec.Output) : LintOutcome :=
  ⟨!f.params.lintFailureExitCodes.contains o.exitCode, o.stdout, o.stderr⟩

/-- Lints a target; none if the filter does not apply to it. -/
def lint (p : Path) (files : List Path) (scope : Scope) : Run σ (Option LintOutcome) := do
  f.requireKind .lint
  f.checkScope p scope
  if ← f.applies p files scope then
    return some (f.lintOutcome (← f.start .lint p files scope))
  else return none

/-- Tidies a target, and finds out whether that changed anything. -/
def tidy (p : Path) (files : List Path) (scope : Scope) : Run σ (Option TidyOutcome) := do
  f.requireKind .tidy
  f.checkScope p scope
  if ← f.applies p files scope then
    if scope = .root then
      let _ ← f.start .tidy p files scope
      return some .indeterminate
    else
      let before ← Snapshot.capture f.root p f.covers
      let _ ← f.start .tidy p files scope
      return some (if ← before.changed f.covers then .changed else .unchanged)
  else return none

def pathsSummary (p : Path) (files : List Path) (scope : Scope) : String :=
  if scope = .files then p.text
  else
    let matching := Path.sorted (files.filter f.covers)
    let members := if matching = [] then Path.sorted files else matching
    let texts := members.map (·.text)
    if members.length ≤ 3 then " ".intercalate texts
    else toString members.length ++ " files matching " ++ " ".intercalate f.params.includes
      ++ ", starting with " ++ " ".intercalate (texts.take 2)

end LintRunner.Filter
