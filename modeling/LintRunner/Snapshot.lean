import LintRunner.World

/-!
What a target holds before a tidier runs, to be compared with what it holds afterwards. A file is
remembered by itself; a directory by those of its direct members that are wanted. Times of change
play no part.
-/

namespace LintRunner

structure Snapshot where
  root : Path
  /-- The directory looked at, unless the target was a single file. -/
  directory : Option Path
  contents : List (Path × ByteArray)

namespace Snapshot

variable {σ : Type}

def below (root member : Path) : Run σ Path :=
  match member.relativeTo? root with
  | some p => return p
  | none => Run.fail (.crash .outsideRoot)

def membersOf (directory : Path) : Run σ (List Path) := do
  match (← Run.tree).status (← Run.here) directory with
  | .ok (l, .directory) => return ((← Run.tree).children l).map fun e => directory.child e.1
  | .ok _ => Run.fail (.os ⟨.notDirectory, directory.text⟩)
  | .error r => Run.fail (Failure.ofRefusal directory r)

def isWanted (root : Path) (wanted : Path → Bool) (member : Path) : Run σ Bool := do
  if ← Run.isFile? member then return wanted (← below root member) else return false

def capture (root target : Path) (wanted : Path → Bool) : Run σ Snapshot := do
  let full := root / target
  if ← Run.isFile? full then
    return ⟨root, none, [(full, ← Run.bytesAt full)]⟩
  else if ← Run.isDirectory? full then
    let members ← (Path.sorted (← membersOf full)).filterM (isWanted root wanted)
    return ⟨root, some full, ← members.mapM fun m => return (m, ← Run.bytesAt m)⟩
  else Run.fail (.filter (.vanished target))

/-- The file is gone, is no file any more, or holds other bytes. -/
def differs (p : Path) (before : ByteArray) : Run σ Bool := do
  Run.debug ("Checking " ++ p.text ++ " for changes")
  match (← Run.tree).status (← Run.here) p with
  | .ok (_, .file now _) => return now != before
  | .ok _ => return true
  | .error (.errno e) =>
    if e = Errno.noEntry then return true else Run.fail (.os ⟨e, p.text⟩)
  | .error .nul => Run.fail (.crash .nulInPath)

def isNew (s : Snapshot) (wanted : Path → Bool) (member : Path) : Run σ Bool := do
  if (s.contents.map (·.1)).contains member then return false
  else isWanted s.root wanted member

def changed (s : Snapshot) (wanted : Path → Bool) : Run σ Bool := do
  if ← s.contents.anyM fun e => differs e.1 e.2 then return true
  else match s.directory with
    | none => return false
    | some directory =>
      if ← Run.isDirectory? directory then (← membersOf directory).anyM (s.isNew wanted)
      else return true

end Snapshot

end LintRunner
