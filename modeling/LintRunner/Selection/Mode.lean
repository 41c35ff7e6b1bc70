/-!
The ways in which the files of a run can be chosen.
-/

namespace LintRunner.Selection

inductive Mode where
  | all
  | paths
  | modified
  | staged
  | stagedWithStash
  | changedSince (ref : String) (named : ref ≠ "")
deriving DecidableEq, Repr

inductive Kind where
  | all
  | paths
  | modified
  | staged
  | stagedWithStash
  | changedSince
deriving DecidableEq, Repr

namespace Kind

def text : Kind → String
  | all => "all"
  | paths => "paths"
  | modified => "git"
  | staged => "staged"
  | stagedWithStash => "staged-with-stash"
  | changedSince => "git-diff-from"

def every : List Kind := [all, paths, modified, staged, stagedWithStash, changedSince]

def ofText? (s : String) : Option Kind := every.find? (·.text == s)

end Kind

/-- A reference where none belongs, or none where one is needed. -/
inductive ModeError where
  | refMissing
  | refUnexpected (k : Kind)
deriving DecidableEq, Repr

def ModeError.message : ModeError → String
  | refMissing => Kind.changedSince.text ++ " selection requires a ref"
  | refUnexpected k => k.text ++ " selection does not take a ref"

namespace Mode

def ofKind (k : Kind) (ref : Option String) : Except ModeError Mode :=
  match k, ref with
  | .changedSince, none => .error .refMissing
  | .changedSince, some ref =>
    if h : ref ≠ "" then .ok (.changedSince ref h) else .error .refMissing
  | k, some _ => .error (.refUnexpected k)
  | .all, none => .ok .all
  | .paths, none => .ok .paths
  | .modified, none => .ok .modified
  | .staged, none => .ok .staged
  | .stagedWithStash, none => .ok .stagedWithStash

/-- The files come from git, and finding none is no error. -/
def usesGit : Mode → Bool
  | all => false
  | paths => false
  | _ => true

def describe : Mode → String
  | all => "all files in the project"
  | paths => "paths passed on the command line (recursively)"
  | modified => "modified files according to git"
  | staged => "files staged for a git commit"
  | stagedWithStash => "files staged for a git commit, stashing unstaged content"
  | changedSince ref _ => "files modified as compared to " ++ ref

end Mode

end LintRunner.Selection
