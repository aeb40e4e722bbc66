import NetPool.Occupancy
import NetPool.Program

/-! # Hypervisors

Two questions are asked of a hypervisor: which virtual networks there are, and which leases each
of them holds. From the answers a survey collects what is in use. -/

namespace NetPool

/-- An active lease: the bridge that it was given out on, and the address with the prefix length
of its network. -/
structure Lease where
  iface : String
  address : AnySubnet
  deriving DecidableEq

/-- What can be asked of a hypervisor. -/
structure Hypervisor where
  networks : Machine → Answer (List String)
  leases : Machine → String → Answer (List Lease)

/-- An interface of the host with its addresses. -/
structure HostInterface where
  name : String
  addresses : List AnyAddress
  deriving DecidableEq

namespace Occupancy

/-- Records the address and the bridge of a lease, and not the range that the address lies in. -/
def addLease (o : Occupancy) (l : Lease) : Occupancy :=
  (o.addAddress l.address.address).addName l.iface

def addInterface (o : Occupancy) (i : HostInterface) : Occupancy :=
  (i.addresses.foldl addAddress o).addName i.name

def ofInterfaces (is : List HostInterface) : Occupancy := is.foldl addInterface empty

def ofLeases (ls : List Lease) : Occupancy := ls.foldl addLease empty

end Occupancy

namespace Hypervisor

/-- Asks for the leases of networks in turn. A network whose leases cannot be read is passed
over, since another run may have destroyed it. -/
def collect (h : Hypervisor) (m : Machine) (o : Occupancy) : List String → Answer Occupancy
  | [] => .ofResult (.ok o)
  | n :: ns => (h.leases m n).attempt.andThen fun found =>
    h.collect m ((found.getD []).foldl Occupancy.addLease o) ns

/-- All that the leases of a hypervisor use. That its networks cannot be listed is a failure. -/
def survey (h : Hypervisor) (m : Machine) : Answer Occupancy :=
  (h.networks m).andThen (h.collect m .empty)

/-! ## Known networks -/

def noSuchNetwork (name : String) : Error := .hypervisor ("network not found: " ++ name)

/-- Networks in the order of their names, each with its leases, or without them if it vanishes
when it is asked for. -/
abbrev KnownNetworks : Type := List (String × Option (List Lease))

/-- Adds a network at its place, or replaces the one of that name. -/
def KnownNetworks.insert (name : String) (leases : Option (List Lease)) :
    KnownNetworks → KnownNetworks
  | [] => [(name, leases)]
  | n :: ns =>
    if name < n.1 then (name, leases) :: n :: ns
    else if name = n.1 then (name, leases) :: ns
    else n :: KnownNetworks.insert name leases ns

/-- The networks of a list, in which the last one of a name counts. -/
def KnownNetworks.ofList (ns : List (String × Option (List Lease))) : KnownNetworks :=
  ns.foldl (fun known n => known.insert n.1 n.2) []

/-- A hypervisor whose networks are known beforehand. -/
def known (ns : KnownNetworks) : Hypervisor where
  networks _ := .ofResult (.ok (ns.map Prod.fst))
  leases _ name := .ofResult <|
    match ns.lookup name with
    | some (some leases) => .ok leases
    | _ => .error (noSuchNetwork name)

def unlistable (message : String) : Hypervisor where
  networks _ := .ofResult (.error (.hypervisor message))
  leases _ _ := .ofResult (.ok [])

end Hypervisor
end NetPool
