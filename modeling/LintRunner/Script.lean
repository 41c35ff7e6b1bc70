import LintRunner.FileTree.Plant
import LintRunner.World

/-!
Hosts that answer from a script instead of starting anything. The first reply that fits is given;
a reply that is good for one use is then crossed out.
-/

namespace LintRunner

/-- What a scripted process does to the files, in this order. Paths start where it runs. -/
structure Effects where
  plants : List (Path × Entry) := []
  extensions : List (Path × ByteArray) := []
  removals : List Path := []
  /-- Bytes to put into every argument that names a file. -/
  refill : Option ByteArray := none

def Effects.apply (e : Effects) (here : Location) (args : List String) (t : FileTree) : FileTree :=
  let t := t.plantAll here e.plants
  let t := e.extensions.foldl (fun t (p, bytes) => t.extend here p bytes) t
  let t := e.removals.foldl (fun t p => t.uproot here p) t
  match e.refill with
  | none => t
  | some bytes =>
    (args.filter (· ≠ "")).foldl (fun t arg => t.refill here (Path.ofString arg) bytes) t

structure Reply where
  exe : Option String := none
  arg : Option String := none
  once : Bool := false
  outcome : Except Errno Completed := .ok ⟨.exited 0, "", ""⟩
  effects : Effects := {}

def Reply.fits (r : Reply) (argv : List String) : Bool :=
  r.exe.all (· == (Path.ofString (argv.head?.getD "")).name) && r.arg.all (argv.drop 1).contains

structure GitReply where
  args : List String
  once : Bool := false
  plants : List (Path × Entry) := []
  outcome : Except String String

structure Script where
  processes : List Reply := []
  git : List GitReply := []

namespace Script

/-- The first that fits, and the list without it if it is good for one use. -/
def takeFirst {α : Type} (fits once : α → Bool) : List α → Option (α × List α)
  | [] => none
  | a :: rest =>
    if fits a then some (a, if once a then rest else a :: rest)
    else (takeFirst fits once rest).map fun (b, rest) => (b, a :: rest)

def spawn (s : Spawn) (t : FileTree) (script : Script) :
    Except StartError Completed × FileTree × Script :=
  match t.status [] s.cwd with
  | .error _ => (.error (.os ⟨Errno.noEntry, s.cwd.text⟩), t, script)
  | .ok (here, .directory) =>
    match takeFirst (·.fits s.argv) (·.once) script.processes with
    | none => (.ok ⟨.exited 0, "", ""⟩, t, script)
    | some (reply, processes) =>
      match reply.outcome with
      | .error e => (.error (.os ⟨e, s.argv.head?.getD ""⟩), t, { script with processes })
      | .ok c => (.ok c, reply.effects.apply here (s.argv.drop 1) t, { script with processes })
  | .ok _ => (.error (.os ⟨Errno.notDirectory, s.cwd.text⟩), t, script)

def answerGit (args : List String) (_ : Path) (t : FileTree) (script : Script) :
    Except String String × FileTree × Script :=
  match takeFirst (·.args == args) (·.once) script.git with
  | none => (.ok "", t, script)
  | some (reply, git) => (reply.outcome, t.plantAll [] reply.plants, { script with git })

/-- A host where time stands still. Git is asked like any other process if it has no script. -/
def host (cwd : Location) (env : List (String × String)) (terminal scriptedGit : Bool) :
    Host Script where
  cwd := cwd
  env := env
  terminal := terminal
  spawn := spawn
  clock := fun script => (0, script)
  git := if scriptedGit then some answerGit else none

end Script

end LintRunner
