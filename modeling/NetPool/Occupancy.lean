import NetPool.Asset
import NetPool.SortedSet

/-! # Occupancy

What must not be handed out again: ranges, single addresses and interface names. An occupancy
depends only on what was put in, not on order or repetition, since its parts are sorted sets. -/

namespace NetPool

/-- The ranges, addresses and names in use. Ranges are kept with their host bits cleared. -/
structure Occupancy where
  networks : SortedSet AnySubnet
  addresses : SortedSet AnyAddress
  names : SortedSet String
  deriving DecidableEq

namespace Occupancy

def empty : Occupancy := ⟨.empty, .empty, .empty⟩

def addNetwork (o : Occupancy) (s : AnySubnet) : Occupancy :=
  { o with networks := o.networks.insert s.masked }

def addAddress (o : Occupancy) (a : AnyAddress) : Occupancy :=
  { o with addresses := o.addresses.insert a }

def addName (o : Occupancy) (name : String) : Occupancy := { o with names := o.names.insert name }

def addAsset (o : Occupancy) (a : Asset) : Occupancy :=
  a.bridges.foldl addName (a.subnets.foldl addNetwork o)

def union (o p : Occupancy) : Occupancy :=
  ⟨o.networks.union p.networks, o.addresses.union p.addresses, o.names.union p.names⟩

/-- All that the assets use. -/
def ofAssets (as : List Asset) : Occupancy := as.foldl addAsset empty

/-- Whether the candidate shares an address with a recorded range or holds a recorded address. -/
def conflicts (o : Occupancy) (s : AnySubnet) : Bool :=
  o.networks.toList.any (·.overlaps s) || o.addresses.toList.any s.covers

def hasName (o : Occupancy) (name : String) : Bool := o.names.contains name

def isEmpty (o : Occupancy) : Bool :=
  o.networks.isEmpty && o.addresses.isEmpty && o.names.isEmpty

end Occupancy
end NetPool
