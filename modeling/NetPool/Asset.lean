import NetPool.Net.Subnet
import NetPool.Time.Instant

/-! # Assets

An asset is what one test run gets: four subnets and the names of two bridges. An entry of the
ledger also bears the stamps of its acquisition. -/

namespace NetPool

/-- The six fields of an asset that are searched for. -/
inductive Field where
  | machineCidr
  | machineCidr6
  | provisioningCidr
  | provisioningCidr6
  | networkIf
  | secondaryNetworkIf
  deriving DecidableEq, Repr

namespace Field

def all : List Field :=
  [.machineCidr, .machineCidr6, .provisioningCidr, .provisioningCidr6, .networkIf,
    .secondaryNetworkIf]

def name : Field → String
  | .machineCidr => "machine_cidr"
  | .machineCidr6 => "machine_cidr6"
  | .provisioningCidr => "provisioning_cidr"
  | .provisioningCidr6 => "provisioning_cidr6"
  | .networkIf => "network_if"
  | .secondaryNetworkIf => "secondary_network_if"

def ofName? (s : String) : Option Field := all.find? (·.name = s)

end Field

/-- The network parameters of one test run, with the stamps of the entry if it has any: when it
was acquired and by which process. -/
structure Asset where
  machineCidr : Subnet .v4
  machineCidr6 : Subnet .v6
  provisioningCidr : Subnet .v4
  provisioningCidr6 : Subnet .v6
  networkIf : String
  secondaryNetworkIf : String
  allocatedAt : Option Instant
  ownerPid : Option UInt32
  deriving DecidableEq

namespace Asset

def networks (a : Asset) : List (Field × AnySubnet) :=
  [(.machineCidr, .of a.machineCidr), (.machineCidr6, .of a.machineCidr6),
    (.provisioningCidr, .of a.provisioningCidr), (.provisioningCidr6, .of a.provisioningCidr6)]

def subnets (a : Asset) : List AnySubnet := a.networks.map Prod.snd

def bridges (a : Asset) : List String := [a.networkIf, a.secondaryNetworkIf]

/-- The number of bytes that an asset takes in a list, without the text of its names. -/
def byteSize : Nat := 112

end Asset
end NetPool
