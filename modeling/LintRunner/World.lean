import LintRunner.Failure

/-!
What a run acts on and what it leaves behind. The world is a tree of files, the state of whatever
answers for processes and for git, and a record of all that has happened. A `Host` says how
processes and git behave; nothing is assumed of it. A `Run` either ends with a value or fails, and
in both cases leaves a world.
-/

namespace LintRunner

inductive Level where
  | debug
  | info
  | warning
  | error
deriving DecidableEq, Repr

/-- The lowest level that is recorded. Warnings and errors always are. -/
inductive Verbosity where
  | debug
  | info
  | warning
deriving DecidableEq, Repr

def Verbosity.shows : Verbosity → Level → Bool
  | .debug, _ => true
  | .info, .debug => false
  | .info, _ => true
  | .warning, .warning => true
  | .warning, .error => true
  | .warning, _ => false

/-- The start of a process: its arguments, the executable first. -/
structure Spawn where
  argv : List String
  cwd : Path
  env : List (String × String)
deriving DecidableEq, Repr

inductive Ending where
  | exited (code : Int)
  | signalled (signal : Nat)
deriving DecidableEq, Repr

structure Completed where
  ending : Ending
  stdout : String
  stderr : String
deriving DecidableEq, Repr

inductive Event where
  | logged (level : Level) (message : String)
  | printed (text : String)
  | spawned (s : Spawn) (outcome : Except StartError Completed)
  | asked (args : List String) (outcome : Except Failure String)

inductive Change where
  | makeDirectory
  | openFile
  | allowExecution
deriving DecidableEq, Repr

/-- What stands in the way of a change although the tree allows it, such as a full disk. It is never that
something is missing, which is for the tree to say. -/
structure Obstacle where
  errno : Errno
  notMissing : errno ≠ Errno.noEntry

structure Host (σ : Type) where
  /-- The directory that relative paths start from, without links. -/
  cwd : Location
  env : List (String × String)
  terminal : Bool
  spawn : Spawn → FileTree → σ → Except StartError Completed × FileTree × σ
  clock : σ → Rat × σ
  /-- Answers for git in place of the git executable, if there is such an answerer. -/
  git : Option (List String → Path → FileTree → σ → Except String String × FileTree × σ)
  obstacle? : Change → Path → FileTree → σ → Option Obstacle := fun _ _ _ _ => none
  /-- Where the writing of bytes to an open file breaks off, if it does, and over what. -/
  breaksOff? : Path → ByteArray → FileTree → σ → Option (Nat × Obstacle) := fun _ _ _ _ => none

/-- What a selection of files holds on to: the top of the repository once it has been asked for, and
a stash, which is active until it has been brought back. -/
structure Holding where
  root : Option Path := none
  stash : Option Bool := none
deriving DecidableEq, Repr

structure World (σ : Type) where
  tree : FileTree
  mind : σ
  /-- What has happened, the latest first. -/
  history : List Event
  holding : Holding
  verbosity : Verbosity

namespace World

variable {σ : Type}

def events (w : World σ) : List Event := w.history.reverse

def record (w : World σ) (e : Event) : World σ := { w with history := e :: w.history }

end World

abbrev Run (σ : Type) := ReaderT (Host σ) (ExceptT Failure (StateM (World σ)))

namespace Run

variable {σ : Type} {α β : Type}

def go (act : Run σ α) (h : Host σ) (w : World σ) : Except Failure α × World σ := act h w

def host : Run σ (Host σ) := fun h w => (.ok h, w)

def world : Run σ (World σ) := fun _ w => (.ok w, w)

def change (f : World σ → World σ) : Run σ Unit := fun _ w => (.ok (), f w)

def fail (e : Failure) : Run σ α := fun _ w => (.error e, w)

def attempt (act : Run σ α) : Run σ (Except Failure α) := fun h w =>
  let (r, w) := act h w
  (.ok r, w)

/-- Runs `after` however `act` ends. What `after` returns is dropped, but its failure counts. -/
def ensuring (act : Run σ α) (after : Run σ Unit) : Run σ α := fun h w =>
  let (r, w) := act h w
  match after h w with
  | (.ok (), w) => (r, w)
  | (.error e, w) => (.error e, w)

def ofExcept {ε : Type} (toFailure : ε → Failure) : Except ε α → Run σ α
  | .ok a => pure a
  | .error e => fail (toFailure e)

def record (e : Event) : Run σ Unit := change (·.record e)

def log (level : Level) (message : String) : Run σ Unit :=
  change fun w => if w.verbosity.shows level then w.record (.logged level message) else w

def debug (message : String) : Run σ Unit := log .debug message

def info (message : String) : Run σ Unit := log .info message

def print (text : String) : Run σ Unit := record (.printed text)

def here : Run σ Location := return (← host).cwd

def cwd : Run σ Path := return ⟨.root, (← host).cwd⟩

def now : Run σ Rat := fun h w =>
  let (t, mind) := h.clock w.mind
  (.ok t, { w with mind })

def tree : Run σ FileTree := return (← world).tree

def setTree (t : FileTree) : Run σ Unit := change ({ · with tree := t })

def askTree (ask : FileTree → Location → Path → Except Refusal α) (p : Path) : Run σ α := do
  ofExcept (Failure.ofRefusal p) (ask (← tree) (← here) p)

/-- A change to the tree, which stays as it is if the change is refused. -/
def changeTree (c : Change) (f : FileTree → Location → Path → Except Refusal FileTree) (p : Path) :
    Run σ Unit := do
  let changed ← askTree f p
  let w ← world
  match (← host).obstacle? c p w.tree w.mind with
  | some o => fail (Failure.ofRefusal p (.errno o.errno))
  | none => setTree changed

def exists? (p : Path) : Run σ Bool := askTree FileTree.exists? p

def isFile? (p : Path) : Run σ Bool := askTree FileTree.isFile? p

def isDirectory? (p : Path) : Run σ Bool := askTree FileTree.isDirectory? p

def bytesAt (p : Path) : Run σ ByteArray := askTree FileTree.bytesAt p

/-- Writes a file. It is there once it is open, and what does not get into it is not written. -/
def write (p : Path) (bytes : ByteArray) : Run σ Unit := do
  changeTree .openFile FileTree.openFile p
  let w ← world
  match (← host).breaksOff? p bytes w.tree w.mind with
  | none => setTree (w.tree.refill (← here) p bytes)
  | some (n, o) =>
    setTree (w.tree.refill (← here) p (bytes.extract 0 n))
    fail (.os ⟨o.errno, none⟩)

def allowExecution (p : Path) : Run σ Unit := changeTree .allowExecution FileTree.allowExecution p

def resolve (p : Path) : Run σ Path := do
  match (← tree).resolve (← here) p with
  | .ok q => return q
  | .error .circle => fail (.crash .linkCircle)
  | .error .nul => fail (.crash .nulInPath)

def ensureDirectory (p : Path) : Run σ Unit := do
  match ← attempt (changeTree .makeDirectory FileTree.makeDirectory p) with
  | .ok () => return
  | .error (.os e) =>
    if e.errno = Errno.noEntry then fail (.os e)
    else if ← isDirectory? p then return
    else fail (.os e)
  | .error e => fail e

def ensureDirectories : Nat → Path → Run σ Unit
  | 0, p => ensureDirectory p
  | levels + 1, p => do
    match ← attempt (ensureDirectory p) with
    | .ok () => return
    | .error (.os e) =>
      if e.errno = Errno.noEntry ∧ e.path = p.text then
        ensureDirectories levels p.parent
        ensureDirectory p
      else fail (.os e)
    | .error e => fail e

def makeDirectories (p : Path) : Run σ Unit := ensureDirectories p.parts.length p

end Run

end LintRunner
