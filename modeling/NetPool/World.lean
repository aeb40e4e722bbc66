import NetPool.Hypervisor

/-! # The world around a reservation

What reservations act on and what they observe: files, the guards of locks, the clock, and the
programs and interfaces of the machine. -/

namespace NetPool

/-- A hold on a lock file. It belongs to the file, not to its path. -/
structure Guard where
  id : Nat
  file : FileId
  deriving DecidableEq, Repr

/-- The state of the world. `uptime` is the age of the machine in seconds, from which waits are
timed. `installed` gives the programs that can be started, and `calls` the arguments of those that
were. `interfaces` are those of the host, as far as they are known, and `memory` is the number of
bytes that a list can have. -/
structure World where
  files : FileSystem
  guards : List Guard
  nextGuard : Nat
  clock : Nat → Instant
  ticks : Nat
  uptime : Nat
  process : UInt32
  installed : String → Option (List String → Output)
  calls : List (List String)
  interfaces : List HostInterface := []
  memory : Nat := 0x10000000000

namespace World

def withFiles (w : World) (files : FileSystem) : World := { w with files := files }

/-- Whether a live guard holds the file. -/
def isHeld (w : World) (file : FileId) : Bool := w.guards.any (·.file = file)

def grant (w : World) (file : FileId) : Guard × World :=
  (⟨w.nextGuard, file⟩,
    { w with guards := ⟨w.nextGuard, file⟩ :: w.guards, nextGuard := w.nextGuard + 1 })

def release (w : World) (g : Guard) : World :=
  { w with guards := w.guards.filter (·.id ≠ g.id) }

/-- The present time; the clock moves on. -/
def now (w : World) : Instant × World := (w.clock w.ticks, { w with ticks := w.ticks + 1 })

/-- The bound of the seconds that the clock for waits can tell. -/
def clockLimit : Nat := Numeral.signedBound

/-- Whether the clock can tell the end of a wait that starts now. -/
def canWait (w : World) (seconds : Nat) : Bool := w.uptime + seconds < clockLimit

/-- Whether memory can hold a list of that many assets. -/
def canHold (w : World) (count : Nat) : Bool := count * Asset.byteSize < w.memory

/-- Why a program that is not installed cannot be started. A name without a slash is searched for
in vain, unless every directory has an entry of that name. What a path names is not executable. -/
def startFailure (w : World) (program : String) : IoError :=
  if program.toList.any (· = '/') then
    match w.files.look program with
    | .ok _ => .permissionDenied
    | .error e => e
  else if program = Path.hereName ∨ program = Path.upName then .permissionDenied
  else .notFound

def machine (w : World) : Machine := fun program args =>
  if (program :: args).any fun s => s.toList.any (·.toNat = 0) then .error .nulInProgram
  else
    match w.installed program with
    | some run => .ok (run args)
    | none => .error (w.startFailure program)

def logged (w : World) (calls : List (List String)) : World := { w with calls := w.calls ++ calls }

end World

/-- A step that changes a state, also if it fails. -/
abbrev Effect (σ α : Type) : Type := ExceptT Error (StateM σ) α

namespace Effect

variable {σ α : Type}

/-- The outcome of a step and the state after it. -/
def outcome (a : Effect σ α) (x : σ) : Except Error α × σ := (ExceptT.run a).run x

def of (a : σ → Except Error α × σ) : Effect σ α := ExceptT.mk a

end Effect

/-- A step that changes the world, also if it fails. -/
abbrev Action (α : Type) : Type := Effect World α

namespace Action

variable {α : Type}

def observe (f : World → Except Error α) : Action α := Effect.of fun w => (f w, w)

/-- The action that changes the files or fails without a change. -/
def onFiles (f : FileSystem → Except IoError FileSystem) : Action Unit := Effect.of fun w =>
  match f w.files with
  | .ok files => (.ok (), w.withFiles files)
  | .error e => (.error (.io e), w)

/-- The action that changes the files even if it fails. -/
def changingFiles (f : FileSystem → Except IoError Unit × FileSystem) : Action Unit := Effect.of fun w =>
  let (r, files) := f w.files
  (r.mapError .io, w.withFiles files)

/-- Asks a question of the machine; the programs started for it are noted. -/
def ask (question : Machine → Answer α) : Action α := Effect.of fun w =>
  let answer := question w.machine
  (answer.result, w.logged answer.calls)

end Action
end NetPool
