import NetPool.CommandLine
import NetPool.Disk
import Std.Time.DateTime.Timestamp

/-! # The program

A run acts on a picture of those parts of the disk that it can touch, and its changes are then
made true. If a trial of the run takes the lock of the ledger, the real lock is held meanwhile, or
else shown as held by another. No other program is started, so there is none on the machine of a
run. -/

namespace NetPool

def processNumber : IO UInt32 := do
  let fields := (← IO.FS.readFile "/proc/self/stat").splitOn " "
  return ((fields.head?.bind String.toNat?).getD 0).toUInt32

def environment : IO (List (String × String)) := do
  let bytes := (← Disk.content? "/proc/self/environ").getD .empty
  let entries := ((String.fromUTF8? bytes).getD "").splitOn "\x00"
  let pairs := entries.filterMap fun e =>
    match e.splitOn "=" with
    | name :: value => if name.isEmpty then none else some (name, "=".intercalate value)
    | [] => none
  return pairs.mergeSort fun a b => a.1 ≤ b.1

def nanosecondsNow : IO Nat := do
  return (← Std.Time.Timestamp.now).toNanosecondsSinceUnixEpoch.val.toNat

def secondsUp : IO Nat := do
  let text := String.fromUTF8? ((← Disk.content? "/proc/uptime").getD .empty)
  return (((text.getD "").splitOn ".").head?.bind String.toNat?).getD 0

def workingNames : IO (List String) := do return (Path.ofText (← IO.currentDir).toString).parts

def worldNow (files : FileSystem) : IO World := do
  let start ← nanosecondsNow
  return {
    files := files, guards := [], nextGuard := 0, clock := fun n => Instant.afterEpoch (start + n)
    ticks := 0, uptime := ← secondsUp, process := ← processNumber, installed := fun _ => none
    calls := [] }

/-- Shows the lock file as held by another guard. -/
def World.lockedOut (w : World) (lockPath : String) : World :=
  match w.files.fileId lockPath with
  | .ok id => (w.grant id).2
  | .error _ => w

def runWith (env : List (String × String)) (args : List String) (settingsName : String) :
    IO CommandLine.Report := do
  let workDir ← workingNames
  let extensions := Settings.extension :: Settings.otherExtensions
  let names := settingsName :: extensions.map (settingsName ++ "." ++ ·)
  let files ← Disk.picture workDir names
  match Settings.load files env settingsName with
  | .error _ => return (CommandLine.run env args (← worldNow files)).1
  | .ok s =>
    let paths := names ++ [s.ledgerPath, s.lockPath]
    let trial ← worldNow (← Disk.picture workDir paths)
    let locks := 0 < (CommandLine.run env args trial).2.nextGuard
    let lock ← if locks then Disk.takeLock s else pure none
    let before ← Disk.picture workDir paths
    let w ← worldNow before
    let held := match lock with | some (_, taken) => taken | none => true
    let (report, after) := CommandLine.run env args (if held then w else w.lockedOut s.lockPath)
    Disk.settleAll paths before after.files
    if let some (handle, true) := lock then handle.unlock
    return report

def report (args : List String) : IO CommandLine.Report := do
  match CommandLine.requestOf args with
  | .run settingsName _ => runWith (← environment) args settingsName
  | .help | .misuse => return (CommandLine.run [] args (← worldNow (.empty []))).1

end NetPool

def main (args : List String) : IO UInt32 := do
  let r ← NetPool.report args
  IO.print r.stdout
  IO.eprint r.stderr
  return r.code.toUInt32
