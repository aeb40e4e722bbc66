import NetPool.Settings
import NetPool.Settings.Layer

/-! # Settings from layers

A group of settings is a table of its fields, or a list of them in order. What is written for a
field is turned into what the field holds, where that is possible. -/

namespace NetPool

namespace Settings

/-! ## Values of fields -/

/-- How a floating-point number is written where a text is due. -/
def scalarText : Toml.Scalar → String
  | .boolean b => booleanText b
  | .integer n => Numeral.integerText n
  | .float x => Layout.plain.text x
  | .text s => s

/-- The text in a field. Any plain value has one. -/
def Layered.asText : Layered → Except Fault String
  | .scalar _ s => .ok (scalarText s)
  | .list origin _ => .error (.wrongKind .sequence .text origin)
  | .table origin _ => .error (.wrongKind .map .text origin)
  | .gap => .error (.wrongKind .nothing .text none)

def oneWords : List (List Char) := ["true", "on", "yes"].map String.toList

def zeroWords : List (List Char) := ["false", "off", "no"].map String.toList

/-- The natural number of 64 bits that a text writes, in digits or as a word. -/
def textNatural? (s : String) : Option Nat :=
  let word := s.toList.map Char.toLower
  if word ∈ oneWords then some 1
  else if word ∈ zeroWords then some 0
  else Numeral.unsigned? wordLimit s.toList

/-- The natural number that a plain value stands for. A floating-point number is rounded, and the
nearest of the natural numbers is taken. -/
def scalarNatural (origin : String) : Toml.Scalar → Except Fault Nat
  | .boolean b => .ok (if b then 1 else 0)
  | .integer n =>
    if 0 ≤ n then .ok n.toNat else .error (.wrongKind (.negative n) .unsigned (some origin))
  | .float x => .ok (x.toNatClamped (wordLimit - 1))
  | .text s =>
    match textNatural? s with
    | some n => .ok n
    | none => .error (.wrongKind (.text s) .natural (some origin))

def Layered.asNatural : Layered → Except Fault Nat
  | .scalar origin s => scalarNatural origin s
  | .list origin _ => .error (.wrongKind .sequence .natural origin)
  | .table origin _ => .error (.wrongKind .map .natural origin)
  | .gap => .error (.wrongKind .nothing .natural none)

def Layered.asShort (v : Layered) : Except Fault Nat := do
  let n ← v.asNatural
  if n < attemptsLimit then return n else throw (.wrongKind (.large n) .short none)

def Layered.asSubnet (f : Family) (v : Layered) : Except Fault (Subnet f) := do
  match Subnet.ofText? f (← v.asText) with
  | some n => return n
  | none => throw .badAddress

/-- What `read` finds in a field that may be empty. A gap is empty. -/
def Layered.asOptional {α : Type} (read : Layered → Except Fault α) :
    Layered → Except Fault (Option α)
  | .gap => .ok none
  | v => (read v).map some

/-! ## Groups -/

/-- A field of a group of which the parts so far are a `ρ`. -/
structure GroupField (ρ : Type) where
  name : String
  read : Layered → ρ → Except Fault ρ

/-- The field of that name, which `read` takes and `store` puts into the parts. -/
def groupField {ρ α : Type} (name : String) (read : Layered → Except Fault α) (store : ρ → α → ρ) :
    GroupField ρ :=
  ⟨name, fun v parts => (read v).map (store parts)⟩

/-- Reads a group. Fields that are absent keep what they have in `start`. -/
def Layered.asGroup {ρ : Type} (group : Group) (fields : List (GroupField ρ)) (start : ρ) :
    Layered → Except Fault ρ
  | .scalar _ s => .error (.wrongGroup (some s) group)
  | .gap => .error (.wrongGroup none group)
  | .list _ vs => (fields.zip vs).foldlM (fun parts (field, v) => field.read v parts) start
  | .table _ es =>
    fields.foldlM (fun parts field =>
      match es.lookup field.name with
      | some v => field.read v parts
      | none => .ok parts) start

/-- The field of that name, which may be empty. -/
def optionalField {ρ α : Type} (name : String) (read : Layered → Except Fault α)
    (store : ρ → Option α → ρ) : GroupField ρ :=
  groupField name (·.asOptional read) store

def templateFields : List (GroupField Template) := [
  optionalField Field.machineCidr.name (·.asSubnet .v4) fun t v => { t with machineCidr := v },
  optionalField Field.machineCidr6.name (·.asSubnet .v6) fun t v => { t with machineCidr6 := v },
  optionalField Field.provisioningCidr.name (·.asSubnet .v4) fun t v =>
    { t with provisioningCidr := v },
  optionalField Field.provisioningCidr6.name (·.asSubnet .v6) fun t v =>
    { t with provisioningCidr6 := v },
  optionalField Field.networkIf.name (·.asText) fun t v => { t with networkIf := v },
  optionalField Field.secondaryNetworkIf.name (·.asText) fun t v =>
    { t with secondaryNetworkIf := v }]

/-- The template in a field. It replaces the standard one as a whole. -/
def Layered.asTemplate (v : Layered) : Except Fault Template :=
  v.asGroup .template templateFields .blank

def settingsFields : List (GroupField Settings) := [
  groupField ledgerPathKey (·.asText) fun s v => { s with ledgerPath := v },
  optionalField lockPathKey (·.asText) fun s v => { s with lockPath? := v },
  groupField lockTimeoutKey (·.asNatural) fun s v => { s with lockTimeoutSecs := v },
  groupField lockPollKey (·.asNatural) fun s v => { s with lockPollMillis := v },
  groupField uriKey (·.asText) fun s v => { s with uri := v },
  groupField virshPathKey (·.asText) fun s v => { s with virshPath := v },
  groupField maxAttemptsKey (·.asShort) fun s v => { s with maxAttempts := v },
  groupField templateKey (·.asTemplate) fun s v => { s with template := v }]

/-- The settings that the layers hold. Without any, they are the standard ones. -/
def ofLayers (ls : Layers) : Except Fault Settings :=
  match ls.lookup groupKey with
  | some v => v.asGroup .settings settingsFields standard
  | none => .ok standard

end Settings
end NetPool
