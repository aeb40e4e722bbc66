import NetPool.Allocation
import NetPool.Files.System
import NetPool.Json.Fault
import NetPool.Settings.Fault

/-! # Errors

Everything that can go wrong with a reservation, with its wording. -/

namespace NetPool

/-- A number that can be too large for the machine. -/
inductive Limit where
  /-- The end of a wait, which the clock must be able to tell. -/
  | deadline
  /-- A number of assets, which memory must be able to hold. -/
  | count
  deriving DecidableEq, Repr

def Limit.message : Limit → String
  | .deadline => "deadline out of range"
  | .count => "count out of range"

/-- Why a reservation failed. -/
inductive Error where
  /-- The configured settings cannot be used. -/
  | configuration (fault : Settings.Fault)
  | template (e : TemplateError)
  /-- The lock stayed with its holder for that many seconds. -/
  | lockTimeout (path : String) (seconds : Nat)
  | exhausted (e : Exhausted)
  /-- A program could not be started. -/
  | programMissing (path : String)
  /-- A program ended without success. -/
  | programFailed (code : Int) (stderr : String)
  | hypervisor (message : String)
  | malformed (fault : Json.Fault)
  | io (e : IoError)
  /-- A number is too large for the machine. -/
  | outOfRange (limit : Limit)
  deriving DecidableEq

namespace Error

def message : Error → String
  | .configuration fault => "Configuration error: " ++ fault.message
  | .template e => e.message
  | .lockTimeout path seconds =>
    "Timed out after " ++ Numeral.text seconds ++ "s waiting for lock " ++ Text.quoted path
  | .exhausted e =>
    "Address pool exhausted for `" ++ e.field.name ++ "` after " ++ Numeral.text e.attempts ++
      " attempts"
  | .programMissing path => "virsh not found at path: " ++ path
  | .programFailed code stderr =>
    "virsh exited with code " ++ Numeral.integerText code ++ ": " ++ stderr
  | .hypervisor text => "Hypervisor error: " ++ text
  | .malformed fault => "Serialization error: " ++ fault.message
  | .io e => "IO error: " ++ e.message
  | .outOfRange limit => limit.message

/-- The wording of what caused an error, if it passes on another one. -/
def cause? : Error → Option String
  | .malformed fault => some fault.message
  | .io e => some e.message
  | _ => none

def isOutOfRange : Error → Bool
  | .configuration .outOfRange => true
  | .outOfRange _ => true
  | _ => false

end Error
end NetPool
