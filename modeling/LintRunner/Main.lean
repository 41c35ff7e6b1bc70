import LintRunner.Cli.Run
import LintRunner.FileTree.Plant

/-!
The program. The files around the directory it is called in are read before anything is done, what
has changed is written afterwards, and what was printed and logged in between is shown. Nothing is
started from here: a tool that is called for is refused by the host, which is reported like any other
refusal by the system.
-/

namespace LintRunner.Program

/-- What is at a place and below it. A link is kept, as one to the place where it ends. -/
partial def gather (t : FileTree) (l : Location) : IO FileTree := do
  let here := (← IO.currentDir) / (Path.mk .root l).text
  match ← here.symlinkMetadata.toBaseIO with
  | .error _ => return t
  | .ok found =>
    match found.type with
    | .dir =>
      let mut t := t.put l .directory
      for e in ← here.readDir do
        t ← gather t (l ++ [e.fileName])
      return t
    | .symlink =>
      match ← (IO.FS.realPath here).toBaseIO with
      | .ok target => return t.put l (.link target.toString)
      | .error _ => return t
    | _ => return t.put l (.file (← IO.FS.readBinFile here) true)

/-- The nearest directory, from `cwd` upwards, that is the top of a checkout; else `cwd`. -/
def topOf (cwd : Path) : IO Path := do
  let isTop (p : Path) : IO Bool :=
    vcsDirectories.anyM fun name => do ((← IO.currentDir) / (p.child name).text).pathExists
  return (← (cwd :: cwd.parents).findM? isTop).getD cwd

def gatherTools (t : FileTree) (searched : String) : IO FileTree := do
  let mut t := t
  for dir in searched.splitOn ":" do
    let here := (← IO.currentDir) / dir
    match ← here.readDir.toBaseIO with
    | .error _ => pure ()
    | .ok names =>
      let base := Path.ofString here.toString
      t := t.plantAll [] (names.toList.map fun e => (base.child e.fileName, .file ByteArray.empty true))
  return t

def hostFor (cwd : Location) (env : List (String × String)) (terminal : Bool) : Host Unit where
  cwd := cwd
  env := env
  terminal := terminal
  spawn := fun s t mind => (.error (.os ⟨Errno.notAllowed, s.argv.head?.getD ""⟩), t, mind)
  clock := fun mind => (0, mind)
  git := none

def levelName : Level → String
  | .debug => "debug"
  | .info => "info"
  | .warning => "warning"
  | .error => "error"

def showEvent : Event → IO Unit
  | .printed text => IO.print text
  | .logged level message => IO.eprintln (levelName level ++ ": " ++ message)
  | _ => pure ()

def writeBack (before after : FileTree) : IO Unit := do
  for (l, e) in after.entries do
    match e with
    | .file bytes executable =>
      if before.get? l ≠ some e then
        let p : Path := ⟨.root, l⟩
        IO.FS.createDirAll p.parent.text
        IO.FS.writeBinFile p.text bytes
        if executable then
          IO.setAccessRights p.text ⟨⟨true, true, true⟩, ⟨true, false, true⟩, ⟨true, false, true⟩⟩
    | _ => pure ()

def settingNames : List String := ["PATH", "TERM", "COLUMNS", "GITHUB_ACTIONS"]

def usage : String := "Usage: gemlint [OPTIONS] (lint | tidy | config list | config init) [ARGS]"

def brokenText : Failure → String
  | .config e => e.message
  | .selection e => e.message
  | .filter e => e.message
  | .exec e => e.message
  | .os e => e.message
  | .mode e => e.message
  | .crash _ => "The run could not go on"

end LintRunner.Program

open LintRunner in
def main (args : List String) : IO UInt32 := do
  let cwd := Path.ofString (← IO.currentDir).toString
  let env ← Program.settingNames.filterMapM fun name => return (← IO.getEnv name).map (name, ·)
  let top ← Program.topOf cwd
  let files ← Program.gather (FileTree.empty.plantDirectories [] top.parent) top.parts
  let tree ← Program.gatherTools files (Exec.searchPath env)
  let host := Program.hostFor cwd.parts env (← (← IO.getStdout).isTty)
  let world : World Unit := {
    tree, mind := (), history := [], holding := {}, verbosity := .warning }
  let (outcome, after) := (Cli.run 1 args : Run Unit Nat).go host world
  Program.writeBack tree after.tree
  after.events.forM Program.showEvent
  match outcome with
  | .ok code =>
    if code = Cli.usageCode then IO.eprintln Program.usage
    return code.toUInt32
  | .error e =>
    IO.eprintln (Program.brokenText e)
    return 1
