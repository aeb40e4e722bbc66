import NetPool.World

/-! # Locks

The lock of a path is a hold on the file that the path names. A holder that stays too long is
presumed dead: its file is removed and the lock is taken on a new one, once. A waiter that gets
hold of a removed file starts again with the file that the path names by then. -/

namespace NetPool.Lock

/-- How an attempt to take a lock ended. -/
inductive Attempt where
  | granted (g : Guard)
  /-- Another guard holds the file. -/
  | waiting (file : FileId)
  deriving DecidableEq, Repr

/-- Opens the lock file of a path, which is made if need be, with the directories above it. -/
def openFile (path : String) : Action FileId := do
  Action.changingFiles (·.makeParents path)
  Effect.of fun w =>
    match w.files.openOrCreate path with
    | .error e => (.error (.io e), w)
    | .ok (_, file, files) => (.ok file, w.withFiles files)

/-- Tries to take the lock on an open file that the path still names. -/
def claim (file : FileId) : Action Attempt := Effect.of fun w =>
  if w.isHeld file then (.ok (.waiting file), w)
  else
    let (g, w) := w.grant file
    (.ok (.granted g), w)

def start (path : String) : Action Attempt := do claim (← openFile path)

/-- Whether the path still names the file; a path that names nothing does not. -/
def names (path : String) (file : FileId) : Action Bool := Action.observe fun w =>
  match w.files.look path with
  | .ok (.file id _) => .ok (id = file)
  | .ok .directory => .ok false
  | .error .notFound => .ok false
  | .error e => .error (.io e)

/-- Tries again after waiting on a file. If the file was removed meanwhile, the file that the path
names now is opened. -/
def retry (path : String) (file : FileId) : Action Attempt := do
  -- A hold on a removed file is let go at once, so it is not granted in the first place.
  if (← get).isHeld file then return .waiting file
  if ← names path file then claim file else start path

/-- The end of the wait. -/
def settle (path : String) (seconds : Nat) : Attempt → Action Guard
  | .granted g => return g
  | .waiting _ => throw (.lockTimeout path seconds)

/-- Takes the lock, or gives up after the wait while nobody else acts. Nothing is touched if the
clock cannot tell the end of the wait. -/
def tryAcquire (path : String) (seconds : Nat) : Action Guard := do
  if !(← get).canWait seconds then throw (.outOfRange .deadline)
  settle path seconds (← start path)

def isTimeout : Error → Bool
  | .lockTimeout .. => true
  | _ => false

/-- Takes the lock. If the wait is over, the lock file is removed and the lock is tried once
more. -/
def acquire (path : String) (seconds : Nat) : Action Guard := do
  try tryAcquire path seconds
  catch e =>
    if isTimeout e then
      Action.onFiles (·.removeIfPresent path)
      tryAcquire path seconds
    else throw e

def release (g : Guard) : Action Unit := modify (·.release g)

/-- Runs an action under the lock of a path, which is let go however the action ends. -/
def holding {α : Type} (path : String) (seconds : Nat) (action : Action α) : Action α := do
  let g ← acquire path seconds
  try
    let a ← action
    release g
    return a
  catch e =>
    release g
    throw e

end NetPool.Lock
