import NetPool.Proofs.Settings.Laying
import NetPool.Settings.Record

/-! # Keys of settings

Each setting without parts has a key: the path at which the layers hold it, the kind of value that
is due there, and the place of that value in the settings. -/

namespace NetPool.Settings

/-- The size of the natural numbers in a field. -/
inductive Width where
  | word
  | short

inductive Kind where
  | text
  | number (w : Width)
  | subnet (f : Family)

def Kind.Value : Kind → Type
  | .text => String
  | .number _ => Nat
  | .subnet f => Subnet f

def Kind.read : (κ : Kind) → Layered → Except Fault κ.Value
  | .text, v => v.asText
  | .number .word, v => v.asNatural
  | .number .short, v => v.asShort
  | .subnet f, v => v.asSubnet f

theorem Kind.read_number_eq_ok {w : Width} {origin : String} {s : Toml.Scalar} {n : Nat}
    (h : (Kind.number w).read (.scalar origin s) = .ok n) :
    scalarNatural origin s = .ok n ∧ (w = .short → n < attemptsLimit) := by
  cases w with
  | word => exact ⟨h, nofun⟩
  | short =>
      obtain ⟨m, hm, hcheck⟩ := bind_eq_ok.mp h
      split at hcheck
      · obtain rfl := Except.ok.inj hcheck
        exact ⟨hm, fun _ => ‹_›⟩
      · cases hcheck

theorem Kind.read_subnet_eq_ok {f : Family} {origin : String} {s : Toml.Scalar} {n : Subnet f}
    (h : (Kind.subnet f).read (.scalar origin s) = .ok n) :
    Subnet.ofText? f (scalarText s) = some n := by
  obtain ⟨t, ht, hread⟩ := bind_eq_ok.mp h
  obtain rfl := Except.ok.inj ht
  split at hread
  · obtain rfl := Except.ok.inj hread
    assumption
  · cases hread

/-- The settings without parts, by the kind of their values. -/
inductive Key : Kind → Type where
  | ledgerPath : Key .text
  | lockPath : Key .text
  | lockTimeout : Key (.number .word)
  | lockPoll : Key (.number .word)
  | uri : Key .text
  | virshPath : Key .text
  | maxAttempts : Key (.number .short)
  | machineCidr : Key (.subnet .v4)
  | machineCidr6 : Key (.subnet .v6)
  | provisioningCidr : Key (.subnet .v4)
  | provisioningCidr6 : Key (.subnet .v6)
  | networkIf : Key .text
  | secondaryNetworkIf : Key .text

namespace Key

variable {κ : Kind}

/-- The names that lead to a setting from the outermost table. -/
def path : Key κ → List String
  | ledgerPath => [groupKey, ledgerPathKey]
  | lockPath => [groupKey, lockPathKey]
  | lockTimeout => [groupKey, lockTimeoutKey]
  | lockPoll => [groupKey, lockPollKey]
  | uri => [groupKey, uriKey]
  | virshPath => [groupKey, virshPathKey]
  | maxAttempts => [groupKey, maxAttemptsKey]
  | machineCidr => [groupKey, templateKey, Field.machineCidr.name]
  | machineCidr6 => [groupKey, templateKey, Field.machineCidr6.name]
  | provisioningCidr => [groupKey, templateKey, Field.provisioningCidr.name]
  | provisioningCidr6 => [groupKey, templateKey, Field.provisioningCidr6.name]
  | networkIf => [groupKey, templateKey, Field.networkIf.name]
  | secondaryNetworkIf => [groupKey, templateKey, Field.secondaryNetworkIf.name]

def value? (s : Settings) : Key κ → Option κ.Value
  | ledgerPath => some s.ledgerPath
  | lockPath => s.lockPath?
  | lockTimeout => some s.lockTimeoutSecs
  | lockPoll => some s.lockPollMillis
  | uri => some s.uri
  | virshPath => some s.virshPath
  | maxAttempts => some s.maxAttempts
  | machineCidr => s.template.machineCidr
  | machineCidr6 => s.template.machineCidr6
  | provisioningCidr => s.template.provisioningCidr
  | provisioningCidr6 => s.template.provisioningCidr6
  | networkIf => s.template.networkIf
  | secondaryNetworkIf => s.template.secondaryNetworkIf

/-- The usual name of the variable for a setting. -/
def variableName (k : Key κ) : String :=
  let words := ("netres" :: k.path).map String.toList
  String.ofList ((List.intercalate ['_', '_'] words).map Char.toUpper)

end Key

/-! ## Fields of groups -/

/-- What `read` finds under a name, or else the default. -/
def Layers.field {α : Type} (ls : Layers) (name : String) (read : Layered → Except Fault α)
    (default : α) : Except Fault α :=
  match ls.lookup name with
  | some v => read v
  | none => .ok default

theorem Layers.read_of_field {α : Type} {ls : Layers} {name : String}
    {read : Layered → Except Fault α} {default a : α} {v : Layered}
    (h : ls.field name read default = .ok a) (hlookup : ls.lookup name = some v) :
    read v = .ok a := by
  rw [field, hlookup] at h
  exact h

namespace Layered

theorem read_of_asOptional {α : Type} {read : Layered → Except Fault α} {v : Layered}
    {a? : Option α} (h : v.asOptional read = .ok a?) (hgap : v ≠ .gap) :
    ∃ a, read v = .ok a ∧ a? = some a := by
  rw [asOptional] at h
  · cases hread : read v with
    | error fault =>
        rw [hread] at h
        cases h
    | ok a =>
        rw [hread] at h
        exact ⟨a, rfl, (Except.ok.inj h).symm⟩
  · exact hgap

/-- The first field of a group, and then the others. `get` finds what `store` changes. -/
theorem asGroup_cons {ρ α : Type} {group : Group} {origin : Option String} {es : Layers}
    {name : String} {read : Layered → Except Fault α} {store : ρ → α → ρ}
    {fields : List (GroupField ρ)} {start parts : ρ} (get : ρ → α)
    (hstore : ∀ parts, store parts (get parts) = parts)
    (h : (table origin es).asGroup group (groupField name read store :: fields) start = .ok parts) :
    ∃ a, es.field name read (get start) = .ok a ∧
      (table origin es).asGroup group fields (store start a) = .ok parts := by
  rw [asGroup, List.foldlM_cons] at h
  obtain ⟨parts₁, hfield, h⟩ := bind_eq_ok.mp h
  simp only [groupField] at hfield
  rw [Layers.field]
  cases hlookup : es.lookup name with
  | none =>
      rw [hlookup] at hfield
      obtain rfl := Except.ok.inj hfield
      exact ⟨get start, rfl, by rwa [hstore]⟩
  | some v =>
      rw [hlookup] at hfield
      cases hread : read v with
      | error fault =>
          simp only [hread] at hfield
          cases hfield
      | ok a =>
          simp only [hread] at hfield
          obtain rfl := Except.ok.inj hfield
          exact ⟨a, hread, h⟩

end Layered

/-- The table holds those settings, apart from the standard ones. -/
structure Layers.Reads (ls : Layers) (s : Settings) : Prop where
  ledgerPath : ls.field ledgerPathKey (·.asText) standard.ledgerPath = .ok s.ledgerPath
  lockPath : ls.field lockPathKey (·.asOptional (·.asText)) standard.lockPath? = .ok s.lockPath?
  lockTimeout : ls.field lockTimeoutKey (·.asNatural) standard.lockTimeoutSecs =
    .ok s.lockTimeoutSecs
  lockPoll : ls.field lockPollKey (·.asNatural) standard.lockPollMillis = .ok s.lockPollMillis
  uri : ls.field uriKey (·.asText) standard.uri = .ok s.uri
  virshPath : ls.field virshPathKey (·.asText) standard.virshPath = .ok s.virshPath
  maxAttempts : ls.field maxAttemptsKey (·.asShort) standard.maxAttempts = .ok s.maxAttempts
  template : ls.field templateKey (·.asTemplate) standard.template = .ok s.template

theorem Layers.reads_of_asGroup {origin : Option String} {es : Layers} {s : Settings}
    (h : (Layered.table origin es).asGroup .settings settingsFields standard = .ok s) :
    es.Reads s := by
  rw [settingsFields] at h
  obtain ⟨ledgerPath, hledgerPath, h⟩ := Layered.asGroup_cons Settings.ledgerPath (fun _ => rfl) h
  obtain ⟨lockPath, hlockPath, h⟩ := Layered.asGroup_cons Settings.lockPath? (fun _ => rfl) h
  obtain ⟨lockTimeout, hlockTimeout, h⟩ :=
    Layered.asGroup_cons Settings.lockTimeoutSecs (fun _ => rfl) h
  obtain ⟨lockPoll, hlockPoll, h⟩ := Layered.asGroup_cons Settings.lockPollMillis (fun _ => rfl) h
  obtain ⟨uri, huri, h⟩ := Layered.asGroup_cons Settings.uri (fun _ => rfl) h
  obtain ⟨virshPath, hvirshPath, h⟩ := Layered.asGroup_cons Settings.virshPath (fun _ => rfl) h
  obtain ⟨maxAttempts, hmaxAttempts, h⟩ :=
    Layered.asGroup_cons Settings.maxAttempts (fun _ => rfl) h
  obtain ⟨template, htemplate, h⟩ := Layered.asGroup_cons Settings.template (fun _ => rfl) h
  obtain rfl := Except.ok.inj h
  exact ⟨hledgerPath, hlockPath, hlockTimeout, hlockPoll, huri, hvirshPath, hmaxAttempts, htemplate⟩

/-- The table holds that template. -/
structure Layers.ReadsTemplate (ls : Layers) (t : Template) : Prop where
  machineCidr : ls.field Field.machineCidr.name (·.asOptional (·.asSubnet .v4)) none =
    .ok t.machineCidr
  machineCidr6 : ls.field Field.machineCidr6.name (·.asOptional (·.asSubnet .v6)) none =
    .ok t.machineCidr6
  provisioningCidr : ls.field Field.provisioningCidr.name (·.asOptional (·.asSubnet .v4)) none =
    .ok t.provisioningCidr
  provisioningCidr6 : ls.field Field.provisioningCidr6.name (·.asOptional (·.asSubnet .v6)) none =
    .ok t.provisioningCidr6
  networkIf : ls.field Field.networkIf.name (·.asOptional (·.asText)) none = .ok t.networkIf
  secondaryNetworkIf : ls.field Field.secondaryNetworkIf.name (·.asOptional (·.asText)) none =
    .ok t.secondaryNetworkIf

theorem Layers.readsTemplate_of_asTemplate {origin : Option String} {es : Layers} {t : Template}
    (h : (Layered.table origin es).asTemplate = .ok t) : es.ReadsTemplate t := by
  rw [Layered.asTemplate, templateFields] at h
  obtain ⟨machineCidr, h₁, h⟩ := Layered.asGroup_cons Template.machineCidr (fun _ => rfl) h
  obtain ⟨machineCidr6, h₂, h⟩ := Layered.asGroup_cons Template.machineCidr6 (fun _ => rfl) h
  obtain ⟨provisioningCidr, h₃, h⟩ :=
    Layered.asGroup_cons Template.provisioningCidr (fun _ => rfl) h
  obtain ⟨provisioningCidr6, h₄, h⟩ :=
    Layered.asGroup_cons Template.provisioningCidr6 (fun _ => rfl) h
  obtain ⟨networkIf, h₅, h⟩ := Layered.asGroup_cons Template.networkIf (fun _ => rfl) h
  obtain ⟨secondaryNetworkIf, h₆, h⟩ :=
    Layered.asGroup_cons Template.secondaryNetworkIf (fun _ => rfl) h
  obtain rfl := Except.ok.inj h
  exact ⟨h₁, h₂, h₃, h₄, h₅, h₆⟩

/-! ## What the layers hold for a key -/

theorem Layered.get?_cons_eq_some {v w : Layered} {name : String} {names : List String}
    (h : v.get? (name :: names) = some w) :
    ∃ origin es u, v = .table origin es ∧ es.lookup name = some u ∧ u.get? names = some w := by
  rw [get?] at h
  obtain ⟨u, hu, hw⟩ := Option.bind_eq_some_iff.mp h
  cases v with
  | table origin es => exact ⟨origin, es, u, rfl, hu, hw⟩
  | scalar | list | gap => cases hu

/-- What is found at a path into the settings is found in the table that they are read from. -/
theorem reads_of_get? {ls : Layers} {s : Settings} (h : ofLayers ls = .ok s) {name : String}
    {names : List String} {w : Layered} (hget : ls.get? (groupKey :: name :: names) = some w) :
    ∃ es u, Layers.Reads es s ∧ es.lookup name = some u ∧ u.get? names = some w := by
  obtain ⟨_, _, group, heq, hgroup, hget⟩ := Layered.get?_cons_eq_some hget
  cases heq
  obtain ⟨origin, es, u, rfl, hu, hw⟩ := Layered.get?_cons_eq_some hget
  rw [ofLayers, hgroup] at h
  exact ⟨es, u, Layers.reads_of_asGroup h, hu, hw⟩

section Fields

variable {ls : Layers} {s : Settings} {w : Layered} (h : ofLayers ls = .ok s) {name : String}
  {α : Type} {read : Layered → Except Fault α}
include h

theorem read_of_get? {default a : α}
    (hreads : ∀ {es : Layers}, es.Reads s → es.field name read default = .ok a)
    (hget : ls.get? [groupKey, name] = some w) : read w = .ok a := by
  obtain ⟨es, u, hes, hu, hw⟩ := reads_of_get? h hget
  obtain rfl := Option.some.inj hw
  exact Layers.read_of_field (hreads hes) hu

theorem readOptional_of_get? (hgap : w ≠ .gap) {default a? : Option α}
    (hreads : ∀ {es : Layers}, es.Reads s → es.field name (·.asOptional read) default = .ok a?)
    (hget : ls.get? [groupKey, name] = some w) : ∃ a, read w = .ok a ∧ a? = some a :=
  Layered.read_of_asOptional (read_of_get? h hreads hget) hgap

theorem readTemplate_of_get? (hgap : w ≠ .gap) {default a? : Option α}
    (hreads : ∀ {es : Layers}, es.ReadsTemplate s.template →
      es.field name (·.asOptional read) default = .ok a?)
    (hget : ls.get? [groupKey, templateKey, name] = some w) :
    ∃ a, read w = .ok a ∧ a? = some a := by
  obtain ⟨_, t, hes, ht, hget⟩ := reads_of_get? h hget
  obtain ⟨origin, es, u, rfl, hu, hw⟩ := Layered.get?_cons_eq_some hget
  obtain rfl := Option.some.inj hw
  have htemplate := Layers.readsTemplate_of_asTemplate (Layers.read_of_field hes.template ht)
  exact Layered.read_of_asOptional (Layers.read_of_field (hreads htemplate) hu) hgap

end Fields

/-- A setting is what is read from the value that the layers hold for its key. -/
theorem Key.value?_of_get? {κ : Kind} (k : Key κ) {ls : Layers} {s : Settings} {w : Layered}
    (h : ofLayers ls = .ok s) (hgap : w ≠ .gap) (hget : ls.get? k.path = some w) :
    ∃ a, κ.read w = .ok a ∧ k.value? s = some a := by
  cases k with
  | ledgerPath => exact ⟨_, read_of_get? h (·.ledgerPath) hget, rfl⟩
  | lockPath => exact readOptional_of_get? h hgap (·.lockPath) hget
  | lockTimeout => exact ⟨_, read_of_get? h (·.lockTimeout) hget, rfl⟩
  | lockPoll => exact ⟨_, read_of_get? h (·.lockPoll) hget, rfl⟩
  | uri => exact ⟨_, read_of_get? h (·.uri) hget, rfl⟩
  | virshPath => exact ⟨_, read_of_get? h (·.virshPath) hget, rfl⟩
  | maxAttempts => exact ⟨_, read_of_get? h (·.maxAttempts) hget, rfl⟩
  | machineCidr => exact readTemplate_of_get? h hgap (·.machineCidr) hget
  | machineCidr6 => exact readTemplate_of_get? h hgap (·.machineCidr6) hget
  | provisioningCidr => exact readTemplate_of_get? h hgap (·.provisioningCidr) hget
  | provisioningCidr6 => exact readTemplate_of_get? h hgap (·.provisioningCidr6) hget
  | networkIf => exact readTemplate_of_get? h hgap (·.networkIf) hget
  | secondaryNetworkIf => exact readTemplate_of_get? h hgap (·.secondaryNetworkIf) hget

end NetPool.Settings
