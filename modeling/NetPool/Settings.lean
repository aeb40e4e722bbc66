import NetPool.Template

/-! # Settings

Where the ledger and its lock are, how long to wait, which hypervisor to ask, and where searches
start. -/

namespace NetPool

structure Settings where
  ledgerPath : String
  /-- The path of the lock file, if it is not the usual one. -/
  lockPath? : Option String
  lockTimeoutSecs : Nat
  lockPollMillis : Nat
  uri : String
  virshPath : String
  maxAttempts : Nat
  template : Template
  deriving DecidableEq

namespace Settings

/-- The settings used where nothing is configured. -/
def standard : Settings where
  ledgerPath := "/tmp/netres_assets.json"
  lockPath? := none
  lockTimeoutSecs := 30
  lockPollMillis := 100
  uri := "qemu:///system"
  virshPath := "virsh"
  maxAttempts := 4096
  template := .standard

/-! ## Keys -/

def ledgerPathKey : String := "ledger_path"

def lockPathKey : String := "lock_path"

def lockTimeoutKey : String := "lock_timeout_secs"

def lockPollKey : String := "lock_poll_millis"

def uriKey : String := "libvirt_uri"

def virshPathKey : String := "virsh_path"

def maxAttemptsKey : String := "max_attempts"

def templateKey : String := "template"

/-- The bound of the natural numbers of 64 bits, such as a count of seconds. -/
def wordLimit : Nat := 0x10000000000000000

def attemptsLimit : Nat := 0x100000000

/-! ## Effective values -/

def lockSuffix : String := ".lock"

def lockPath (s : Settings) : String := s.lockPath?.getD (s.ledgerPath ++ lockSuffix)

/-- The milliseconds between two attempts to take the lock: one at least. -/
def lockPoll (s : Settings) : Nat := max s.lockPollMillis 1

/-! ## Local connections -/

/-- The text after the first `://`, if there is one. -/
def afterScheme? : List Char → Option (List Char)
  | ':' :: '/' :: '/' :: rest => some rest
  | _ :: cs => afterScheme? cs
  | [] => none

/-- The text after the last `@`, or all of it. -/
def afterUser (cs : List Char) : List Char := (cs.reverse.takeWhile (· ≠ '@')).reverse

/-- The host of an authority: within brackets, or up to the first colon. -/
def hostOf (cs : List Char) : List Char :=
  match afterUser cs with
  | '[' :: rest => rest.takeWhile (· ≠ ']')
  | host => host.takeWhile (· ≠ ':')

def localHosts : List (List Char) := ["", "localhost", "127.0.0.1", "::1"].map String.toList

/-- Whether a connection leads to this machine: it has no host, or one of its names. -/
def isLocalUri (uri : String) : Bool :=
  match afterScheme? uri.toList with
  | none => true
  | some rest => localHosts.contains (hostOf (rest.takeWhile fun c => c ≠ '/' && c ≠ '?'))

def isLocal (s : Settings) : Bool := isLocalUri s.uri

end Settings
end NetPool
