import NetPool.Net.Walk
import NetPool.Occupancy
import NetPool.Template

/-! # Allocation

Each field of an asset is searched on its own, from its template onwards, for the first candidate
that conflicts with nothing in use. What was chosen is in use for the fields after it. -/

namespace NetPool

/-- No candidate of a field was free; `attempts` of them were tried. -/
structure Exhausted where
  field : Field
  attempts : Nat
  deriving DecidableEq, Repr

/-- A search chooses something that is not in use and records it. A failure keeps what was
recorded before it. -/
abbrev Search (α : Type) : Type := ExceptT Exhausted (StateM Occupancy) α

/-- The outcome of a search and what is in use after it. -/
def Search.outcome {α : Type} (s : Search α) (o : Occupancy) : Except Exhausted α × Occupancy :=
  (ExceptT.run s).run o

def Search.of {α : Type} (s : Occupancy → Except Exhausted α × Occupancy) : Search α :=
  ExceptT.mk s

namespace Allocation

/-- Looks for the first candidate from `s` on that is free, trying at most `left` more after the
`tried` ones. The error is the number of candidates tried. -/
def firstFree {f : Family} (o : Occupancy) :
    (left tried : Nat) → Subnet f → Except Nat (Subnet f)
  | 0, tried, _ => .error tried
  | left + 1, tried, s =>
    if o.conflicts (.of s) then
      match s.next? with
      | none => .error (tried + 1)
      | some t => firstFree o left (tried + 1) t
    else .ok s

/-- Chooses the first free subnet of the walk from `start`. It is returned with the host bits
that the walk carries, and recorded without them. -/
def pickSubnet {f : Family} (maxAttempts : Nat) (field : Field) (start : Subnet f) :
    Search (Subnet f) :=
  .of fun o =>
    match firstFree o maxAttempts 0 start with
    | .ok s => (.ok s, o.addNetwork (.of s))
    | .error attempts => (.error ⟨field, attempts⟩, o)

def numbered (stem : String) (i : Nat) : String := stem ++ Numeral.text i

/-- Looks for the first free name from number `i` on, trying at most `left` more. A name that is
too long ends the search. The error is the number of names tried. -/
def firstFreeName (o : Occupancy) (stem : String) : (left i : Nat) → Except Nat String
  | 0, i => .error i
  | left + 1, i =>
    if (numbered stem i).utf8ByteSize > maxNameBytes then .error i
    else if o.hasName (numbered stem i) then firstFreeName o stem left (i + 1)
    else .ok (numbered stem i)

/-- Chooses the first free name made of the stem and a number, and records it. -/
def pickName (maxAttempts : Nat) (field : Field) (stem : String) : Search String :=
  .of fun o =>
    match firstFreeName o stem maxAttempts 0 with
    | .ok name => (.ok name, o.addName name)
    | .error attempts => (.error ⟨field, attempts⟩, o)

/-- Chooses all six fields in order. The asset bears no stamps yet. -/
def allocate (t : CheckedTemplate) (maxAttempts : Nat) : Search Asset := do
  let machineCidr ← pickSubnet maxAttempts .machineCidr t.machineCidr
  let machineCidr6 ← pickSubnet maxAttempts .machineCidr6 t.machineCidr6
  let provisioningCidr ← pickSubnet maxAttempts .provisioningCidr t.provisioningCidr
  let provisioningCidr6 ← pickSubnet maxAttempts .provisioningCidr6 t.provisioningCidr6
  let networkIf ← pickName maxAttempts .networkIf t.networkIf.text
  let secondaryNetworkIf ← pickName maxAttempts .secondaryNetworkIf t.secondaryNetworkIf.text
  return ⟨machineCidr, machineCidr6, provisioningCidr, provisioningCidr6, networkIf,
    secondaryNetworkIf, none, none⟩

end Allocation
end NetPool
