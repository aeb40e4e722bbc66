import NetPool.Asset.Json
import NetPool.World

/-! # The ledger

The ledger is a file that lists the assets in use. A ledger without entries is no file; a missing
or blank file is a ledger without entries. -/

namespace NetPool.Ledger

/-- The entries that the content of a ledger file lists. -/
def decode (content : ByteArray) : Except Error (List Asset) :=
  match String.fromUTF8? content with
  | none => .error (.io .invalidUtf8)
  | some s =>
    if s.toList.all Text.isBlank then .ok []
    else (Asset.listOfJson s).mapError .malformed

/-- The content of a ledger file with entries. -/
def encode (entries : List Asset) : ByteArray := (Asset.listJson entries ++ "\n").toUTF8

def entries (files : FileSystem) (path : String) : Except Error (List Asset) :=
  match files.read path with
  | .error .notFound => .ok []
  | .error e => .error (.io e)
  | .ok content => decode content

def load (path : String) : Action (List Asset) := Action.observe fun w => entries w.files path

/-- Replaces the ledger. Directories above it are made if need be. -/
def store (path : String) : List Asset → Action Unit
  | [] => Action.onFiles (·.removeIfPresent path)
  | e :: es => do
    Action.changingFiles (·.makeParents path)
    Action.onFiles (·.write path (encode (e :: es)))

end NetPool.Ledger
