import LintRunner.FileTree.Lookup
import LintRunner.Path.Lexical

/-!
The path of an entry with every link on the way replaced by what it stands for. Names that are not
there are kept, and dots behind them, single or double, are taken by their text.
-/

namespace LintRunner.FileTree

/-- What each link met so far leads to, or nothing while that is being found out. -/
abbrev Known := List (Location × Option Location)

inductive Resolved where
  | whole (l : Location) (known : Known)
  /-- A link that leads back to itself, with the names left over. -/
  | stuck (names : List String)

/-- Follows `names` from `l`; `chase` answers for the target of a link. -/
def resolveWith (t : FileTree) (chase : Location → List String → Known → Resolved) (l : Location)
    (known : Known) : List String → Resolved
  | [] => .whole l known
  | name :: rest =>
    if name = "." then resolveWith t chase l known rest
    else if name = ".." then resolveWith t chase l.dropLast known rest
    else
      let next := l ++ [name]
      match t.get? next with
      | some (.link target) =>
        match known.lookup next with
        | some (some settled) => resolveWith t chase settled known rest
        | some none => .stuck (next ++ rest)
        | none =>
          match chase (if target.startsWith "/" then [] else l) (Path.namesIn target)
            ((next, none) :: known) with
          | .whole settled known => resolveWith t chase settled ((next, some settled) :: known) rest
          | .stuck names => .stuck (names ++ rest)
      | _ => resolveWith t chase next known rest

/-- `links` bounds how many links can be open at once. -/
def resolveNames (t : FileTree) : Nat → Location → List String → Known → Resolved
  | 0, l, names, _ => .stuck (l ++ names)
  | n + 1, l, names, known => t.resolveWith (t.resolveNames n) l known names

def linkCount (t : FileTree) : Nat :=
  t.entries.countP fun (_, e) => match e with | .link _ => true | _ => false

inductive ResolveError where
  | circle
  | nul
deriving DecidableEq, Repr

def resolve (t : FileTree) (here : Location) (p : Path) : Except ResolveError Path :=
  if hasNul p then .error .nul
  else
    let names :=
      match t.resolveNames (t.linkCount + 1) (originOf here p) p.parts [] with
      | .whole l _ => l
      | .stuck names => names
    let q := (Path.mk .root (names.filter Path.isName)).normalize
    match t.status here q with
    | .error (.errno e) => if e = .linkLoop then .error .circle else .ok q
    | _ => .ok q

end LintRunner.FileTree
