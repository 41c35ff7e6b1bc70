import LintRunner.World
import LintRunner.Text.Utf8

/-!
Ignore files. The rules of one file speak of the paths below one directory, the last rule that
matches decides, and a file of higher precedence overrules the others. Rules can be released for a
directory: those that ignore it, or a directory above it, no longer apply.
-/

namespace LintRunner

def vcsDirectories : List String := [".git", ".hg", ".svn"]

structure IgnoreFile where
  directory : Path
  source : Path
  patterns : List Pattern

namespace IgnoreFile

/-- The path as the rules see it, with a slash after a directory. -/
def subject (below : Path) (isDirectory : Bool) : List Char :=
  below.text.toList ++ (if isDirectory then ['/'] else [])

/-- The last pattern that matches decides; none if none does. -/
def verdictOf (ps : List Pattern) (subject : List Char) : Option Bool :=
  ps.foldl (fun verdict p => if p.covers subject then some p.positive else verdict) none

/-- Ignored, taken back, or not spoken of. -/
def decide (f : IgnoreFile) (p : Path) (isDirectory : Bool) : Option Bool :=
  match p.relativeTo? f.directory with
  | none => none
  | some below => verdictOf f.patterns (subject below isDirectory)

/-- The directories from `start` up that lie below the one the rules speak of, as the rules see
them. -/
def ancestors (f : IgnoreFile) (start : Path) : List (List Char) :=
  ((start :: start.parents).filter fun p => p.parents.contains f.directory).filterMap fun p =>
    (p.relativeTo? f.directory).map (subject · true)

def ignoresAny (subjects : List (List Char)) (p : Pattern) : Bool :=
  p.positive && subjects.any p.covers

def keeps (f : IgnoreFile) (start : Path) (p : Pattern) : Bool :=
  !ignoresAny (f.ancestors start) p

/-- The rules without those that ignore `start` or a directory above it. -/
def released (f : IgnoreFile) (start : Path) : IgnoreFile :=
  { f with patterns := f.patterns.filter (f.keeps start) }

def keepsAll (f : IgnoreFile) (start : Path) : Bool := f.patterns.all (f.keeps start)

variable {σ : Type}

def release (f : IgnoreFile) (start : Path) : Run σ IgnoreFile := do
  if f.keepsAll start then return f
  else
    Run.debug ("Not applying rules from " ++ f.source.text ++ " that ignore " ++ start.text)
    return f.released start

def textOf (bytes : ByteArray) : List String :=
  (Text.lines (Text.unifyNewlines (Text.decodeLenient bytes))).map String.ofList

/-- Reads line after line. A malformed one is left out with a warning. -/
def readLines (source : Path) : List String → Run σ (List Pattern)
  | [] => return []
  | line :: rest => do
    match Pattern.read line with
    | .ok p => return p :: (← readLines source rest)
    | .error .malformed =>
      Run.log .warning ("Skipping invalid pattern " ++ Text.quoted line ++ " in " ++ source.text
        ++ ": " ++ Pattern.malformedReason line)
      readLines source rest
    | .error (.badSet e) => Run.fail (.crash (Failure.ofReadError e))

def load (source directory : Path) : Run σ (Option IgnoreFile) := do
  match ← Run.attempt (Run.bytesAt source) with
  | .error (.os e) =>
    Run.log .warning ("Could not read ignore file " ++ source.text ++ ": " ++ e.message)
    return none
  | .error e => Run.fail e
  | .ok bytes =>
    let patterns ← readLines source (textOf bytes)
    return if patterns.any Pattern.isActive then some ⟨directory, source, patterns⟩ else none

end IgnoreFile

/-- The rules come in order of precedence, lowest first. -/
def isIgnored (p : Path) (rules : List IgnoreFile) (isDirectory : Bool) : Bool :=
  (rules.reverse.findSome? (·.decide p isDirectory)).getD false

end LintRunner
