import LintRunner.Filter.Basic
import LintRunner.Exec
import LintRunner.Text.Substitution

/-!
A filter ready to run: its patterns and tolerances read, and its settings checked against one
another.
-/

namespace LintRunner

structure Filter where
  params : Filter.Params
  root : Path
  includer : Matcher
  excluder : Matcher
  cmd : List String
  tolerated : List Tolerance

namespace Filter

def rootPlaceholder : String := "$GEMLINT_ROOT"

def sortedCodes (codes : List Int) : List Int :=
  codes.foldr (fun c cs => cs.filter (· < c) ++ c :: cs.filter (c < ·)) []

def readTolerance (name pattern : String) : Except Failure Tolerance :=
  match Regex.read pattern.toList with
  | .ok r => .ok ⟨pattern, r⟩
  | .error (.flaw f position) =>
    .error (.config (.badStderrPattern name pattern (Regex.describeFlaw pattern.toList f position)))
  | .error e => .error (.crash (Failure.ofReadError e))

def tolerances (p : Params) : Except Failure (List Tolerance) :=
  if p.expectStderr then .ok [.anything] else p.ignoreStderr.mapM (readTolerance p.name)

def overlap (p : Params) : List Int :=
  sortedCodes (p.okExitCodes.filter p.lintFailureExitCodes.contains)

def build (p : Params) (root : Path) : Except Failure Filter := do
  if p.kind = .both ∧ p.lintFlags = [] ∧ p.tidyFlags = [] then
    throw (.config (.flagsNeeded p.name))
  if overlap p ≠ [] then throw (.config (.overlappingCodes p.name (overlap p)))
  let includer ← (Matcher.compile root p.includes).mapError Failure.ofBadLine
  let excluder ← (Matcher.compile root p.excludes).mapError Failure.ofBadLine
  let cmd := p.cmd.map (Text.replaced rootPlaceholder root.text)
  return ⟨p, root, includer, excluder, cmd, ← tolerances p⟩

variable (f : Filter)

def name : String := f.params.name

def kind : Kind := f.params.kind

def acceptedCodes : List Int := sortedCodes (f.params.okExitCodes ++ f.params.lintFailureExitCodes)

/-- The key under which the configuration declares the filter. -/
def configKey : String :=
  "commands." ++ (if f.name.toList.contains ' ' then "\"" ++ f.name ++ "\"" else f.name)

/-- How the filter is started, where, and with which paths; none if that cannot be written. -/
def describe? : Option String :=
  f.params.invoke.describe?.map fun invoke =>
    invoke ++ " | working_dir = " ++ f.params.workingDir.describe
      ++ " | path_args = " ++ Text.quoted f.params.pathArgs.text

def covers (p : Path) : Bool := !f.excluder.covers p false && f.includer.covers p false

end Filter

end LintRunner
