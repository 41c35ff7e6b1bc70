import LintRunner.Filter.Basic

/-!
The selected files by directory, and the targets that a filter is started for.
-/

namespace LintRunner

structure Group where
  directory : Path
  files : List Path
deriving DecidableEq, Repr

namespace Group

def ofDirectory (files : List Path) (directory : Path) : Group :=
  ⟨directory, Path.sortedSet (files.filter (·.parent == directory))⟩

/-- The files by parent directory, directories and files in order. -/
def make (files : List Path) : List Group :=
  (Path.sortedSet (files.map (·.parent))).map (ofDirectory files)

end Group

/-- What a filter is started for: a path, and the selected files that belong to it. -/
structure Target where
  path : Path
  files : List Path
deriving DecidableEq, Repr

namespace Target

def ofFile (p : Path) : Target := ⟨p, [p]⟩

def ofGroup (g : Group) : Target := ⟨g.directory, g.files⟩

def pathMap (scope : Filter.Scope) (files : List Path) (groups : List Group) : List Target :=
  match scope with
  | .root => [⟨.here, files⟩]
  | .dirs => groups.map ofGroup
  | .files => files.map ofFile

end Target

end LintRunner
