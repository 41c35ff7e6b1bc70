import LintRunner.Config.Reading
import LintRunner.Failure
import LintRunner.Text.Substitution

/-!
One command of a configuration: its settings as they are written, and the filter parameters they
stand for. Two older settings can be used in place of `invoke`, `working_dir` and `path_args`, but not
together with them.
-/

namespace LintRunner.Config

inductive PlaceSetting where
  | root
  | dir
  | changeTo (directory : String)
  | subRoots (directories : List String)
deriving DecidableEq, Repr

structure Command where
  kind : Filter.Kind
  includes : List String
  excludes : List String
  invoke : Option Filter.Invoke
  workingDir : Option PlaceSetting
  pathArgs : Option Filter.PathStyle
  runMode : Option Filter.Scope
  chdir : Option Bool
  cmd : List String
  env : List (String × String)
  lintFlags : List String
  tidyFlags : List String
  pathFlag : String
  okExitCodes : List Int
  lintFailureExitCodes : List Int
  expectStderr : Bool
  ignoreStderr : List String
  labels : List String
deriving DecidableEq, Repr

namespace Command

def greatestCode : Int := 255

def readCode : Value → Except BadSetting Int
  | .int n => if 0 ≤ n ∧ n ≤ greatestCode then .ok n else .error (.codeOutOfRange n)
  | _ => .error .codeNotInteger

/-- Exit codes; a single one stands for itself. The first that is wrong is reported. -/
def readCodes (v : Value) : Verdict (List Int) :=
  let items := match v with
    | .absent => []
    | .list items => items
    | v => [v]
  match items.mapM readCode with
  | .ok codes => .sound codes
  | .error b => .refuse (.bad b)

def readCmd (v : Value) : Verdict (List String) :=
  (readTexts v).andThen fun cmd =>
    match cmd with
    | [] => .refuse (.bad .noExecutable)
    | exe :: args => if exe = "" then .refuse (.bad .noExecutable) else .sound (exe :: args)

def noneOf {α : Type} (branches : List (String × List Located)) : Verdict α :=
  .faulty (branches.flatMap fun (branch, found) => found.map (·.under [.key branch]))

def fixedStrategy? (s : String) : Option Filter.Scope :=
  Filter.Scope.every.find? fun scope => (Filter.Strategy.fixed scope).text == s

def adaptiveStrategy? (s : String) : Option Filter.Adaptive :=
  match Filter.Strategy.ofText? s with
  | some (.adaptive a) => some a
  | _ => none

def checkThreshold : List (String × Int) → Verdict Filter.Invoke
  | [(key, threshold)] =>
    match adaptiveStrategy? key with
    | none => .refuse (.bad .badThresholdTable)
    | some a =>
      if h : 0 < threshold.toNat then .sound (.adaptive a threshold.toNat h)
      else .refuse (.bad .thresholdTooSmall)
  | _ => .refuse (.bad .badThresholdTable)

def invokeTable : String := "dict[str,int]"

def notText : String × List Located := ("str", [⟨[], .notString⟩])

def readInvoke : Value → Verdict Filter.Invoke
  | .string s =>
    match fixedStrategy? s with
    | some scope => .sound (.fixed scope)
    | none => .refuse (.bad .unknownInvoke)
  | .table entries =>
    match Verdict.eachKey readInteger entries with
    | .sound thresholds => checkThreshold thresholds
    | .faulty found => noneOf [notText, (invokeTable, found)]
  | _ => noneOf [notText, (invokeTable, [⟨[], .notTable⟩])]

def placeTable : String := "dict[str,union[str,list[str]]]"

def readTextOrTexts : Value → Verdict (String ⊕ List String)
  | .string s => .sound (.inl s)
  | .list items =>
    match Verdict.each readText items with
    | .sound texts => .sound (.inr texts)
    | .faulty found => noneOf [notText, ("list[str]", found)]
  | _ => noneOf [notText, ("list[str]", [⟨[], .notList⟩])]

def checkPlace : List (String × (String ⊕ List String)) → Verdict PlaceSetting
  | [(key, entry)] =>
    if key = "chdir_to" then
      match entry with
      | .inl directory =>
        if directory = "" then .refuse (.bad .emptyChangeTo) else .sound (.changeTo directory)
      | .inr _ => .refuse (.bad .emptyChangeTo)
    else if key = "sub_roots" then
      match entry with
      | .inl _ => .refuse (.bad .badSubRoots)
      | .inr directories =>
        if directories = [] ∨ "" ∈ directories then .refuse (.bad .badSubRoots)
        else .sound (.subRoots directories)
    else .refuse (.bad .unknownWorkingDirKey)
  | _ => .refuse (.bad .workingDirKeys)

def readPlace : Value → Verdict PlaceSetting
  | .string s =>
    if s = "root" then .sound .root
    else if s = "dir" then .sound .dir
    else .refuse (.bad .unknownWorkingDir)
  | .table entries =>
    match Verdict.eachKey readTextOrTexts entries with
    | .sound entries => checkPlace entries
    | .faulty found => noneOf [notText, (placeTable, found)]
  | _ => noneOf [notText, (placeTable, [⟨[], .notTable⟩])]

/-- A hyphen in a key counts as an underscore. Of two keys that become one, the first gives the
place and the last the value. -/
def unifyKeys (entries : Table) : Table :=
  entries.foldl (fun t e => Table.put t (Text.replaced "-" "_" e.1) e.2) []

/-- The keys of a command, in the order in which they are checked; `type` has a second name. -/
def keys : List String :=
  ["type", "include", "exclude", "invoke", "working_dir", "path_args", "run_mode", "chdir", "cmd",
    "env", "lint_flags", "tidy_flags", "path_flag", "ok_exit_codes", "lint_failure_exit_codes",
    "expect_stderr", "ignore_stderr", "labels"]

def kindKey (t : Table) : String := if !t.has "type" && t.has "kind" then "kind" else "type"

def required {α : Type} (t : Table) (key : String) (read : Value → Verdict α) : Verdict α :=
  (match t.lookup key with
    | some v => read v
    | none => .refuse .missing).under [.key key]

def optional {α : Type} (t : Table) (key : String) (default : α) (read : Value → Verdict α) :
    Verdict α :=
  (match t.lookup key with
    | some v => read v
    | none => .sound default).under [.key key]

def onlyKeys (known : List String) (t : Table) : Verdict Unit :=
  match t.filter fun e => !known.contains e.1 with
  | [] => .sound ()
  | extra => .faulty (extra.map fun e => ⟨[.key e.1], .extra⟩)

def readTable (t : Table) : Verdict Command :=
  let kind := kindKey t
  let texts (key : String) : Verdict (List String) := optional t key [] readTexts
  Command.mk
    <$> required t kind (readChoice .notChoice Filter.Kind.text Filter.Kind.every)
    <*> required t "include" readTexts
    <*> texts "exclude"
    <*> optional t "invoke" none (readOptional readInvoke)
    <*> optional t "working_dir" none (readOptional readPlace)
    <*> optional t "path_args" none
      (readOptional (readChoice .notChoice Filter.PathStyle.text Filter.PathStyle.every))
    <*> optional t "run_mode" none
      (readOptional (readChoice .notLiteral Filter.Scope.text Filter.Scope.every))
    <*> optional t "chdir" none (readOptional readTruth)
    <*> required t "cmd" readCmd
    <*> optional t "env" [] readTextTable
    <*> texts "lint_flags"
    <*> texts "tidy_flags"
    <*> optional t "path_flag" "" readText
    <*> optional t "ok_exit_codes" [0] readCodes
    <*> optional t "lint_failure_exit_codes" [] readCodes
    <*> optional t "expect_stderr" false readTruth
    <*> texts "ignore_stderr"
    <*> texts "labels"
    <* onlyKeys (kind :: keys.drop 1) t

def read : Value → Verdict Command
  | .table entries => readTable (unifyKeys entries)
  | _ => .refuse (.notModel .command)

structure Invocation where
  invoke : Filter.Invoke
  workingDir : Filter.WorkingDir
  pathArgs : Filter.PathStyle
deriving DecidableEq, Repr

def olderInvocation : Filter.Scope → Bool → Invocation
  | .files, true => ⟨.fixed .files, .dir, .file⟩
  | .files, false => ⟨.fixed .files, .root, .file⟩
  | .dirs, true => ⟨.fixed .dirs, .dir, .none⟩
  | .dirs, false => ⟨.fixed .dirs, .root, .dir⟩
  | .root, true => ⟨.fixed .root, .root, .none⟩
  | .root, false => ⟨.fixed .root, .root, .dot⟩

def PlaceSetting.workingDir : PlaceSetting → Filter.WorkingDir
  | .root => .root
  | .dir => .dir
  | .changeTo directory => .changeTo (Path.ofString directory)
  | .subRoots directories => .subRoots (directories.map Path.ofString)

variable (c : Command)

def usesOlder : Bool := c.runMode.isSome || c.chdir.isSome

def usesNewer : Bool := c.invoke.isSome || c.workingDir.isSome || c.pathArgs.isSome

def newerInvocation : Invocation where
  invoke := c.invoke.getD (.fixed .files)
  workingDir := (c.workingDir.map PlaceSetting.workingDir).getD .root
  pathArgs := c.pathArgs.getD .file

def clash (first second : String × String) : String :=
  "cannot set " ++ first.1 ++ " = \"" ++ first.2 ++ "\" and " ++ second.1 ++ " = \"" ++ second.2
    ++ "\""

def Invocation.flaw? (i : Invocation) : Option String :=
  let style := ("path_args", i.pathArgs.text)
  match i.invoke with
  | .fixed .files => if i.pathArgs.namesFiles then none else some (clash ("invoke", "per-file") style)
  | .fixed .dirs =>
    if i.workingDir ≠ .dir ∧ (i.pathArgs = .dot ∨ i.pathArgs = .none) then
      some (clash ("invoke", "per-dir") style)
    else none
  | .fixed .root =>
    if i.workingDir = .dir then some (clash ("invoke", "once") ("working_dir", "dir")) else none
  | .adaptive _ _ _ => none

def invocation (name : String) : Except ConfigError Invocation :=
  if c.usesOlder then
    if c.usesNewer then .error (.oldAndNew name)
    else .ok (olderInvocation (c.runMode.getD .files) (c.chdir.getD false))
  else
    match c.newerInvocation.flaw? with
    | some reason => .error (.impossibleInvocation name reason)
    | none => .ok c.newerInvocation

def answersTo : List String := if c.labels = [] then [Filter.defaultLabel] else c.labels

def hasLabel (label : String) : Bool := c.answersTo.contains label

def params (name : String) : Except ConfigError Filter.Params := do
  let i ← c.invocation name
  return {
    name
    kind := c.kind
    cmd := c.cmd
    includes := c.includes
    excludes := c.excludes
    invoke := i.invoke
    workingDir := i.workingDir
    pathArgs := i.pathArgs
    env := c.env
    lintFlags := c.lintFlags
    tidyFlags := c.tidyFlags
    pathFlag := if c.pathFlag = "" then none else some c.pathFlag
    okExitCodes := c.okExitCodes
    lintFailureExitCodes := c.lintFailureExitCodes
    expectStderr := c.expectStderr
    ignoreStderr := c.ignoreStderr
    labels := c.answersTo }

end Command

end LintRunner.Config
