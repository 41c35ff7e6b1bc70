import LintRunner.Number
import LintRunner.Path.Basic
import LintRunner.Text.Quoted

/-!
What a filter is configured to do: a command that lints, tidies or does both, how often it is
started, where it runs, and how it is told which files are meant.
-/

namespace LintRunner

inductive Action where
  | lint
  | tidy
deriving DecidableEq, Repr

namespace Action

def text : Action → String
  | lint => "lint"
  | tidy => "tidy"

def noun : Action → String
  | lint => "linting"
  | tidy => "tidying"

def title : Action → String
  | lint => "Linting"
  | tidy => "Tidying"

end Action

namespace Filter

inductive Kind where
  | lint
  | tidy
  | both
deriving DecidableEq, Repr

namespace Kind

def text : Kind → String
  | lint => "lint"
  | tidy => "tidy"
  | both => "both"

def every : List Kind := [lint, tidy, both]

def what : Kind → String
  | lint => "linter"
  | tidy => "tidier"
  | both => "linter/tidier"

def serves : Kind → Action → Bool
  | lint, .tidy => false
  | tidy, .lint => false
  | _, _ => true

end Kind

inductive Scope where
  | files
  | dirs
  | root
deriving DecidableEq, Repr

namespace Scope

def text : Scope → String
  | files => "files"
  | dirs => "dirs"
  | root => "root"

def every : List Scope := [files, dirs, root]

end Scope

/-- The strategies that leave the scope to the number of files or directories. -/
inductive Adaptive where
  | fileOrDir
  | fileOrOnce
  | dirOrOnce
deriving DecidableEq, Repr

inductive Strategy where
  | fixed (s : Scope)
  | adaptive (a : Adaptive)
deriving DecidableEq, Repr

namespace Strategy

def text : Strategy → String
  | fixed .files => "per-file"
  | fixed .dirs => "per-dir"
  | fixed .root => "once"
  | adaptive .fileOrDir => "per-file-or-dir"
  | adaptive .fileOrOnce => "per-file-or-once"
  | adaptive .dirOrOnce => "per-dir-or-once"

def every : List Strategy :=
  [fixed .files, fixed .dirs, fixed .root, adaptive .fileOrDir, adaptive .fileOrOnce,
    adaptive .dirOrOnce]

def ofText? (s : String) : Option Strategy := every.find? (·.text == s)

end Strategy

inductive Invoke where
  | fixed (s : Scope)
  | adaptive (a : Adaptive) (threshold : Nat) (positive : 0 < threshold)
deriving DecidableEq, Repr

inductive InvokeError where
  | thresholdNeeded (a : Adaptive)
  | thresholdUnexpected (s : Scope)
deriving DecidableEq, Repr

def InvokeError.message : InvokeError → String
  | thresholdNeeded a => (Strategy.adaptive a).text ++ " requires a positive threshold"
  | thresholdUnexpected s => (Strategy.fixed s).text ++ " does not take a threshold"

namespace Invoke

def ofStrategy : Strategy → Option Int → Except InvokeError Invoke
  | .fixed s, none => .ok (.fixed s)
  | .fixed s, some _ => .error (.thresholdUnexpected s)
  | .adaptive a, none => .error (.thresholdNeeded a)
  | .adaptive a, some n =>
    if h : 0 < n.toNat then .ok (.adaptive a n.toNat h) else .error (.thresholdNeeded a)

def scopeFor (i : Invoke) (files dirs : Nat) : Scope :=
  match i with
  | fixed s => s
  | adaptive .fileOrDir n _ => if files < n then .files else .dirs
  | adaptive .fileOrOnce n _ => if files < n then .files else .root
  | adaptive .dirOrOnce n _ => if dirs < n then .dirs else .root

/-- The setting as it is written; none if the threshold has too many digits for that. -/
def describe? : Invoke → Option String
  | fixed s => some ("invoke = \"" ++ (Strategy.fixed s).text ++ "\"")
  | adaptive a n _ => (Number.written? n).map ("invoke." ++ (Strategy.adaptive a).text ++ " = " ++ ·)

end Invoke

/-- Where the command runs; paths are relative to the project root. -/
inductive WorkingDir where
  | root
  | dir
  | changeTo (p : Path)
  | subRoots (ps : List Path)
deriving DecidableEq, Repr

def WorkingDir.describe : WorkingDir → String
  | root => "\"root\""
  | dir => "\"dir\""
  | changeTo p => "chdir_to = \"" ++ p.text ++ "\""
  | subRoots ps => "sub_roots = [" ++ ", ".intercalate (ps.map fun p => "\"" ++ p.text ++ "\"") ++ "]"

inductive PathStyle where
  | file
  | dir
  | none
  | dot
  | absoluteFile
  | absoluteDir
deriving DecidableEq, Repr

namespace PathStyle

def text : PathStyle → String
  | file => "file"
  | dir => "dir"
  | none => "none"
  | dot => "dot"
  | absoluteFile => "absolute-file"
  | absoluteDir => "absolute-dir"

def every : List PathStyle := [file, dir, none, dot, absoluteFile, absoluteDir]

def namesFiles (s : PathStyle) : Bool := s == file || s == absoluteFile

def isAbsolute (s : PathStyle) : Bool := s == absoluteFile || s == absoluteDir

end PathStyle

inductive TidyOutcome where
  | changed
  | unchanged
  | indeterminate
deriving DecidableEq, Repr

structure LintOutcome where
  passed : Bool
  stdout : Option String
  stderr : Option String
deriving DecidableEq, Repr

def defaultLabel : String := "default"

structure Params where
  name : String
  kind : Kind
  cmd : List String
  includes : List String
  excludes : List String
  invoke : Invoke
  workingDir : WorkingDir
  pathArgs : PathStyle
  env : List (String × String)
  lintFlags : List String
  tidyFlags : List String
  pathFlag : Option String
  okExitCodes : List Int
  lintFailureExitCodes : List Int
  expectStderr : Bool
  ignoreStderr : List String
  labels : List String

end Filter

end LintRunner
