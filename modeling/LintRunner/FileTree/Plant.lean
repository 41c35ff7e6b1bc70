import LintRunner.FileTree.Lookup

/-!
Laying out a tree from a list of paths and what is at them.
-/

namespace LintRunner.FileTree

/-- Where something new would be put, or what it would take the place of. -/
def placeAt (t : FileTree) (follow : Bool) (here : Location) (p : Path) : Option Location :=
  match t.locate follow here p with
  | .ok (.found l) => some l
  | .ok (.free l) => some l
  | _ => none

def plantDirectories (t : FileTree) (here : Location) (p : Path) : FileTree :=
  (p.parents.reverse ++ [p]).foldl (fun t q =>
    match t.locate true here q with
    | .ok (.free l) => t.put l .directory
    | _ => t) t

/-- Puts an entry at a path, with the directories it needs. A file goes where links lead; a link
takes the place of whatever is there. -/
def plant (t : FileTree) (here : Location) (p : Path) (e : Entry) : FileTree :=
  match e with
  | .directory => t.plantDirectories here p
  | .file _ _ =>
    let t := t.plantDirectories here p.parent
    match t.placeAt true here p with
    | some l => t.put l e
    | none => t
  | .link _ =>
    let t := t.plantDirectories here p.parent
    match t.placeAt false here p with
    | some l => (t.erase l).put l e
    | none => t

def plantAll (t : FileTree) (here : Location) (plan : List (Path × Entry)) : FileTree :=
  plan.foldl (fun t (p, e) => t.plant here p e) t

/-- Takes away what is at a path, a link itself and not what it leads to. -/
def uproot (t : FileTree) (here : Location) (p : Path) : FileTree :=
  match t.locate false here p with
  | .ok (.found l) => t.erase l
  | _ => t

def extend (t : FileTree) (here : Location) (p : Path) (bytes : ByteArray) : FileTree :=
  match t.placeAt true here p with
  | none => t
  | some l =>
    match t.get? l with
    | some (.file old executable) => t.put l (.file (old ++ bytes) executable)
    | some _ => t
    | none => t.put l (.file bytes false)

end LintRunner.FileTree
