import NetPool.Hypervisor
import NetPool.Net.Notation

/-! # Hypervisors asked through virsh

The program `virsh` prints names and tables; the networks, the bridge of a network and its leases
are read off them. -/

namespace NetPool.Virsh

/-! ## What the program prints -/

def networkNames (cs : List Char) : List String :=
  (((Text.lines cs).map Text.trim).filter (!·.isEmpty)).map String.ofList

/-- The key and the value of a row, which the first colon parts. -/
def keyValue? (line : List Char) : Option (List Char × List Char) :=
  match line.span (· ≠ ':') with
  | (key, _ :: value) => some (Text.trim key, Text.trim value)
  | _ => none

def bridgeKey : List Char := "bridge".toList

def bridgeOfLine? (line : List Char) : Option String :=
  match keyValue? line with
  | some (key, value) =>
    if key.map Char.toLower = bridgeKey ∧ !value.isEmpty then some (String.ofList value) else none
  | none => none

def bridge? (cs : List Char) : Option String := (Text.lines cs).findSome? bridgeOfLine?

/-- The leased address in a row: the first word that is a subnet. -/
def leaseOfLine? (line : List Char) : Option AnySubnet :=
  (Text.words line).findSome? fun w => AnySubnet.ofText? (String.ofList w)

def leaseAddresses (cs : List Char) : List AnySubnet := (Text.lines cs).filterMap leaseOfLine?

/-! ## Asking -/

def connection (uri : String) : List String := ["--quiet", "-c", uri]

/-- Runs the program with some arguments; what it wrote, if it ended with success. -/
def run (m : Machine) (program uri : String) (args : List String) : Answer (List Char) :=
  let all := connection uri ++ args
  match m program all with
  | .error e => .ofResult (.error (.programMissing (program ++ ": " ++ e.message)))
  | .ok out =>
    ⟨[all],
      if out.code = some 0 then .ok (outputText out.stdout)
      else .error (.programFailed ((out.code.map Int.ofNat).getD (-1)) (trimmedText out.stderr))⟩

/-- The version of the program. It is not looked at how the program ended. -/
def version (m : Machine) (program : String) : Answer String :=
  match m program ["--version"] with
  | .error _ => .ofResult (.error (.programMissing program))
  | .ok out => ⟨[["--version"]], .ok (trimmedText out.stdout)⟩

def networks (m : Machine) (program uri : String) : Answer (List String) :=
  (run m program uri ["net-list", "--all", "--name"]).andThen fun cs =>
    .ofResult (.ok (networkNames cs))

/-- The leases of a network. Without a bridge, they bear the name of the network. -/
def leases (m : Machine) (program uri network : String) : Answer (List Lease) :=
  (run m program uri ["net-info", network]).andThen fun info =>
    (run m program uri ["net-dhcp-leases", network]).andThen fun table =>
      .ofResult (.ok ((leaseAddresses table).map fun a => ⟨(bridge? info).getD network, a⟩))

def hypervisor (program uri : String) : Hypervisor where
  networks m := networks m program uri
  leases m network := leases m program uri network

end NetPool.Virsh
