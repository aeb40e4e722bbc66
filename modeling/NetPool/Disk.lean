import NetPool.Settings
import NetPool.Files.System

/-! # The disk

A picture holds those parts of the disk that some paths lead through. What has changed between
two pictures is made true on the disk. -/

namespace NetPool.Disk

/-- All the places that a path leads through from a directory, itself included. -/
def trail : (here : List String) → (names : List String) → List (List String)
  | here, [] => [here]
  | here, name :: names =>
    here :: trail (if name = Path.upName then here.dropLast else here ++ [name]) names

/-- The places that a path leads through, from the root on. -/
def places (workDir : List String) (path : String) : List (List String) :=
  let p := Path.ofText path
  trail [] ((if p.absolute then [] else workDir) ++ p.parts)

def pathOf (place : List String) : String := "/" ++ String.intercalate "/" place

def content? (path : String) : IO (Option ByteArray) := do
  try return some (← IO.FS.readBinFile path)
  catch _ => return none

def nodeAt (id : FileId) (place : List String) : IO (Option Node) := do
  if ← ((← IO.currentDir) / pathOf place).isDir then return some .directory
  return (← content? (pathOf place)).map (.file id)

/-- A picture of the places that paths lead through. -/
def picture (workDir : List String) (paths : List String) : IO FileSystem := do
  let mut files := FileSystem.empty workDir
  for place in paths.flatMap (places workDir) do
    let node ← nodeAt files.nextId place
    files := { files.set place (files.node? place <|> node) with nextId := files.nextId + 1 }
  return files

/-- Makes a place of the disk what it has become. -/
def settle (place : List String) (before after : Option Node) : IO Unit := do
  let path := pathOf place
  match before, after with
  | none, some .directory => IO.FS.createDir path
  | some (.file ..), none => IO.FS.removeFile path
  | some (.file id old), some (.file id' new) =>
    if id ≠ id' then IO.FS.removeFile path
    if id ≠ id' || old.toList ≠ new.toList then IO.FS.writeBinFile path new
  | none, some (.file _ new) => IO.FS.writeBinFile path new
  | _, _ => return

def settleAll (paths : List String) (before after : FileSystem) : IO Unit := do
  for place in (paths.flatMap (places before.workDir)).eraseDups do
    settle place (before.node? place) (after.node? place)

/-- Tries to take a lock until the time is up, given in attempts and the pause between them. -/
def waitFor (handle : IO.FS.Handle) (pause : UInt32) : (attempts : Nat) → IO Bool
  | 0 => handle.tryLock
  | attempts + 1 => do
    if ← handle.tryLock then return true
    IO.sleep pause
    waitFor handle pause attempts

/-- Takes the real lock of the settings. `none` if its file cannot be opened, and whether it was
taken otherwise. -/
def takeLock (s : Settings) : IO (Option (IO.FS.Handle × Bool)) := do
  try
    if let some above := (Path.ofText s.lockPath).parent? then
      IO.FS.createDirAll (if above.text.isEmpty then "." else above.text)
    let handle ← IO.FS.Handle.mk s.lockPath .append
    let attempts := s.lockTimeoutSecs * 1000 / s.lockPoll
    return some (handle, ← waitFor handle s.lockPoll.toUInt32 attempts)
  catch _ => return none

end NetPool.Disk
