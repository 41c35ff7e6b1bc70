import LintRunner.FileTree.Basic

/-!
Finding the way in a tree with links. A link on the way is always followed, one at the end only if
asked for; after forty links the search is given up. `..` leads up from wherever the names before it
have led, links included.
-/

namespace LintRunner

inductive Refusal where
  | errno (e : Errno)
  | nul
deriving DecidableEq, Repr

namespace FileTree

/-- Where a way through the tree ends. -/
inductive Spot where
  | found (l : Location)
  /-- Nothing is there, in a directory that is. -/
  | free (l : Location)
  | refused (e : Errno)
deriving DecidableEq, Repr

inductive Descent where
  | done (s : Spot)
  /-- A link met on the way from `origin`, with the names still to come. -/
  | link (origin : Location) (target : String) (rest : List String)

/-- A name in a directory has at most so many bytes. The limit of 4095 bytes on the text of a whole
path has no part here: paths are taken to be shorter than that. -/
def longestName : Nat := 255

/-- The names a link leads through. A slash at the end asks for a directory. -/
def targetNames (target : String) : List String :=
  Path.namesIn target ++ (if target.toList.getLast? = some '/' then ["."] else [])

def descend (t : FileTree) (follow : Bool) (l : Location) : List String → Descent
  | [] => .done (.found l)
  | name :: rest =>
    if t.get? l ≠ some .directory then .done (.refused .notDirectory)
    else if name = "." then descend t follow l rest
    else if name = ".." then descend t follow l.dropLast rest
    else if longestName < name.utf8ByteSize then .done (.refused .nameTooLong)
    else
      match t.get? (l ++ [name]) with
      | none => .done (if rest = [] then .free (l ++ [name]) else .refused .noEntry)
      | some (.link target) =>
        if rest = [] ∧ follow = false then .done (.found (l ++ [name])) else .link l target rest
      | some _ => descend t follow (l ++ [name]) rest

def mostLinks : Nat := 40

def walkTo (t : FileTree) (follow : Bool) : Nat → Location → List String → Spot
  | links, l, names =>
    match t.descend follow l names with
    | .done s => s
    | .link origin target rest =>
      match links with
      | 0 => .refused .linkLoop
      | n + 1 =>
        t.walkTo follow n (if target.startsWith "/" then [] else origin) (targetNames target ++ rest)

def originOf (here : Location) (p : Path) : Location := if p.isAbsolute then [] else here

def hasNul (p : Path) : Bool := p.parts.any (·.toList.contains '\x00')

def locate (t : FileTree) (follow : Bool) (here : Location) (p : Path) : Except Refusal Spot :=
  if hasNul p then .error .nul else .ok (t.walkTo follow mostLinks (originOf here p) p.parts)

def status (t : FileTree) (here : Location) (p : Path) : Except Refusal (Location × Entry) := do
  match ← t.locate true here p with
  | .found l =>
    match t.get? l with
    | some e => return (l, e)
    | none => throw (.errno .noEntry)
  | .free _ => throw (.errno .noEntry)
  | .refused e => throw (.errno e)

/-- A question about a path that is nowhere is simply answered no. -/
def settles (r : Refusal) : Bool :=
  match r with
  | .nul => true
  | .errno e => [Errno.noEntry, Errno.notDirectory, Errno.linkLoop].contains e

def inquire (t : FileTree) (ask : Entry → Bool) (here : Location) (p : Path) : Except Refusal Bool :=
  match t.status here p with
  | .ok (_, e) => .ok (ask e)
  | .error r => if settles r then .ok false else .error r

def Entry.isFile : Entry → Bool
  | .file _ _ => true
  | _ => false

def Entry.isDirectory : Entry → Bool
  | .directory => true
  | _ => false

def exists? (t : FileTree) : Location → Path → Except Refusal Bool := t.inquire fun _ => true

def isFile? (t : FileTree) : Location → Path → Except Refusal Bool := t.inquire Entry.isFile

def isDirectory? (t : FileTree) : Location → Path → Except Refusal Bool := t.inquire Entry.isDirectory

def bytesAt (t : FileTree) (here : Location) (p : Path) : Except Refusal ByteArray := do
  match ← t.status here p with
  | (_, .file bytes _) => return bytes
  | _ => throw (.errno .isDirectory)

/-- Opens a file for writing: makes it, or empties the one that is there, through a link if one leads on. -/
def openFile (t : FileTree) (here : Location) (p : Path) : Except Refusal FileTree := do
  match ← t.locate true here p with
  | .free l => return t.put l (.file .empty false)
  | .refused e => throw (.errno e)
  | .found l =>
    match t.get? l with
    | some (.file _ executable) => return t.put l (.file .empty executable)
    | _ => throw (.errno .isDirectory)

def refill (t : FileTree) (here : Location) (p : Path) (bytes : ByteArray) : FileTree :=
  match t.status here p with
  | .ok (l, .file _ executable) => t.put l (.file bytes executable)
  | _ => t

def allowExecution (t : FileTree) (here : Location) (p : Path) : Except Refusal FileTree := do
  match ← t.status here p with
  | (l, .file bytes _) => return t.put l (.file bytes true)
  | _ => return t

def makeDirectory (t : FileTree) (here : Location) (p : Path) : Except Refusal FileTree := do
  match ← t.locate false here p with
  | .free l => return t.put l .directory
  | .found _ => throw (.errno .taken)
  | .refused e => throw (.errno e)

end FileTree

end LintRunner
