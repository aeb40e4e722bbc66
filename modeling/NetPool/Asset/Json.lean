import NetPool.Asset
import NetPool.Json.Reader
import NetPool.Json.Writer
import NetPool.Net.Notation
import NetPool.Template
import NetPool.Time.Notation

/-! # Assets and templates as JSON

An asset is an object of its fields; absent stamps are left out. A template is read in the same
way, with every field optional. -/

namespace NetPool

namespace Json

def subnetKind : Family → String
  | .v4 => "IPv4 network address"
  | .v6 => "IPv6 network address"

def readSubnet (f : Family) : Reader (Subnet f) :=
  readWritten (subnetKind f) fun s =>
    match Subnet.ofText? f s with
    | some n => .ok n
    | none => .error .badAddress

def readAnyString : Reader String := readString "a string"

def readInstant : Reader Instant :=
  readWritten "an RFC 3339 formatted date and time string" fun s =>
    (Instant.ofText? s).mapError .badInstant

def readUInt32 : Reader UInt32 := fun cs => (readNatural "u32" 0x100000000 cs).map (·.toUInt32)

/-- The field of that name, which `read` takes and `store` puts into the parts. -/
def field {ρ α : Type} (name : String) (required : Bool) (read : Reader α) (store : ρ → α → ρ) :
    FieldReader ρ :=
  ⟨name, required, fun parts cs => (read cs).map (store parts)⟩

end Json

namespace Asset

structure Parts where
  machineCidr : Option (Subnet .v4) := none
  machineCidr6 : Option (Subnet .v6) := none
  provisioningCidr : Option (Subnet .v4) := none
  provisioningCidr6 : Option (Subnet .v6) := none
  networkIf : Option String := none
  secondaryNetworkIf : Option String := none
  allocatedAt : Option Instant := none
  ownerPid : Option UInt32 := none

/-- The part of a field, or the field's name if it is absent. -/
def Parts.need {α : Type} (field : Field) : Option α → Except String α
  | some a => .ok a
  | none => .error field.name

/-- The asset of the parts, or the name of the first field that is absent. -/
def Parts.finish (p : Parts) : Except String Asset := do
  let machineCidr ← need .machineCidr p.machineCidr
  let machineCidr6 ← need .machineCidr6 p.machineCidr6
  let provisioningCidr ← need .provisioningCidr p.provisioningCidr
  let provisioningCidr6 ← need .provisioningCidr6 p.provisioningCidr6
  let networkIf ← need .networkIf p.networkIf
  let secondaryNetworkIf ← need .secondaryNetworkIf p.secondaryNetworkIf
  return ⟨machineCidr, machineCidr6, provisioningCidr, provisioningCidr6, networkIf,
    secondaryNetworkIf, p.allocatedAt, p.ownerPid⟩

def allocatedAtKey : String := "allocated_at"

def ownerPidKey : String := "owner_pid"

open Json in
/-- How an asset is read. -/
def recordReader : RecordReader Parts Asset where
  expected := "struct AllocatedAsset"
  start := {}
  fields := [
    field Field.machineCidr.name true (readSubnet .v4) fun p v => { p with machineCidr := some v },
    field Field.machineCidr6.name true (readSubnet .v6) fun p v =>
      { p with machineCidr6 := some v },
    field Field.provisioningCidr.name true (readSubnet .v4) fun p v =>
      { p with provisioningCidr := some v },
    field Field.provisioningCidr6.name true (readSubnet .v6) fun p v =>
      { p with provisioningCidr6 := some v },
    field Field.networkIf.name true readAnyString fun p v => { p with networkIf := some v },
    field Field.secondaryNetworkIf.name true readAnyString fun p v =>
      { p with secondaryNetworkIf := some v },
    field allocatedAtKey false (readNullable readInstant) fun p v => { p with allocatedAt := v },
    field ownerPidKey false (readNullable readUInt32) fun p v => { p with ownerPid := v }]
  finish := Parts.finish

def members (a : Asset) : Json.Members :=
  [(Field.machineCidr.name, .text a.machineCidr.text),
    (Field.machineCidr6.name, .text a.machineCidr6.text),
    (Field.provisioningCidr.name, .text a.provisioningCidr.text),
    (Field.provisioningCidr6.name, .text a.provisioningCidr6.text),
    (Field.networkIf.name, .text a.networkIf),
    (Field.secondaryNetworkIf.name, .text a.secondaryNetworkIf)] ++
  (a.allocatedAt.toList.map fun t => (allocatedAtKey, .text t.text)) ++
  (a.ownerPid.toList.map fun p => (ownerPidKey, .number p.toNat))

def ofJson (s : String) : Except Json.Fault Asset := Json.parse recordReader.read s.toList

def json (a : Asset) : String := String.ofList (Json.writeCompact a.members)

def prettyJson (a : Asset) : String := String.ofList (Json.writePretty 0 a.members)

def listOfJson (s : String) : Except Json.Fault (List Asset) :=
  Json.parse (Json.readList recordReader.read) s.toList

def listJson (as : List Asset) : String := String.ofList (Json.writePrettyList (as.map members))

end Asset

namespace Template

open Json in
def recordReader : RecordReader Template Template where
  expected := "struct AssetTemplate"
  start := blank
  fields := [
    field Field.machineCidr.name false (readNullable (readSubnet .v4)) fun p v =>
      { p with machineCidr := v },
    field Field.machineCidr6.name false (readNullable (readSubnet .v6)) fun p v =>
      { p with machineCidr6 := v },
    field Field.provisioningCidr.name false (readNullable (readSubnet .v4)) fun p v =>
      { p with provisioningCidr := v },
    field Field.provisioningCidr6.name false (readNullable (readSubnet .v6)) fun p v =>
      { p with provisioningCidr6 := v },
    field Field.networkIf.name false (readNullable readAnyString) fun p v =>
      { p with networkIf := v },
    field Field.secondaryNetworkIf.name false (readNullable readAnyString) fun p v =>
      { p with secondaryNetworkIf := v }]
  finish := .ok

def ofJson (s : String) : Except Json.Fault Template := Json.parse recordReader.read s.toList

end Template
end NetPool
