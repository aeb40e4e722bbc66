import NetPool.Proofs.Settings.Group
import NetPool.Proofs.Settings.Value
import NetPool.Proofs.Template

/-! # Layering

A setting comes from the variable for it, or else from the file, or else it has its default. The
defaults of the template count as a whole: where anything is said for the template, what is not said
is absent. -/

namespace NetPool.Settings

/-! ## Defaults -/

def Key.inTemplate {κ : Kind} : Key κ → Bool
  | machineCidr | machineCidr6 | provisioningCidr | provisioningCidr6 | networkIf
  | secondaryNetworkIf => true
  | ledgerPath | lockPath | lockTimeout | lockPoll | uri | virshPath | maxAttempts => false

theorem Layers.eq_default_of_field {α : Type} {es : Layers} {name : String}
    {read : Layered → Except Fault α} {default a : α} (h : es.field name read default = .ok a)
    (hlookup : es.lookup name = none) : a = default := by
  rw [field, hlookup] at h
  exact (Except.ok.inj h).symm

section Tables

variable {es : Layers} {given : List String → Option Layered} {mentioned : Bool} {s : Settings}
  (h : es.SettingsTable given mentioned)
  (hs : (Layered.table none es).asGroup .settings settingsFields standard = .ok s)
include h hs

theorem template_eq_standard (hmentioned : mentioned = false) : s.template = .standard :=
  Layers.eq_default_of_field (Layers.reads_of_asGroup hs).template (h.absent hmentioned).1

theorem Key.value?_of_setting {κ : Kind} (k : Key κ) (hk : k.inTemplate = false)
    (hnone : given k.path = none) : k.value? s = k.value? standard := by
  have hreads := Layers.reads_of_asGroup hs
  have hdefault {α : Type} {name : String} {read : Layered → Except Fault α} {default a : α}
      (hfield : es.field name read default = .ok a) (hname : name ≠ templateKey)
      (hnone : given [groupKey, name] = none) : a = default :=
    Layers.eq_default_of_field hfield ((h.setting hname).trans hnone)
  cases k with
  | ledgerPath => exact congrArg some (hdefault hreads.ledgerPath (by decide) hnone)
  | lockPath => exact hdefault hreads.lockPath (by decide) hnone
  | lockTimeout => exact congrArg some (hdefault hreads.lockTimeout (by decide) hnone)
  | lockPoll => exact congrArg some (hdefault hreads.lockPoll (by decide) hnone)
  | uri => exact congrArg some (hdefault hreads.uri (by decide) hnone)
  | virshPath => exact congrArg some (hdefault hreads.virshPath (by decide) hnone)
  | maxAttempts => exact congrArg some (hdefault hreads.maxAttempts (by decide) hnone)
  | machineCidr | machineCidr6 | provisioningCidr | provisioningCidr6 | networkIf
  | secondaryNetworkIf => cases hk

theorem Key.value?_of_mentioned {κ : Kind} (k : Key κ) (hk : k.inTemplate = true)
    (hmentioned : mentioned = true) (hnone : given k.path = none) : k.value? s = none := by
  obtain ⟨origin, inner, hlookup, hinner⟩ := h.present hmentioned
  have htemplate : (Layered.table origin inner).asTemplate = .ok s.template :=
    Layers.read_of_field (Layers.reads_of_asGroup hs).template hlookup
  have hreads := Layers.readsTemplate_of_asTemplate htemplate
  have habsent {α : Type} {name : String} {read : Layered → Except Fault α} {default a : α}
      (hfield : Layers.field inner name read default = .ok a)
      (hnone : given [groupKey, templateKey, name] = none) : a = default :=
    Layers.eq_default_of_field hfield ((hinner name).trans hnone)
  cases k with
  | machineCidr => exact habsent hreads.machineCidr hnone
  | machineCidr6 => exact habsent hreads.machineCidr6 hnone
  | provisioningCidr => exact habsent hreads.provisioningCidr hnone
  | provisioningCidr6 => exact habsent hreads.provisioningCidr6 hnone
  | networkIf => exact habsent hreads.networkIf hnone
  | secondaryNetworkIf => exact habsent hreads.secondaryNetworkIf hnone
  | ledgerPath | lockPath | lockTimeout | lockPoll | uri | virshPath | maxAttempts => cases hk

end Tables

theorem Key.value?_congr_template {κ : Kind} (k : Key κ) (hk : k.inTemplate = true)
    {s s' : Settings} (h : s.template = s'.template) : k.value? s = k.value? s' := by
  cases k with
  | machineCidr => exact congrArg Template.machineCidr h
  | machineCidr6 => exact congrArg Template.machineCidr6 h
  | provisioningCidr => exact congrArg Template.provisioningCidr h
  | provisioningCidr6 => exact congrArg Template.provisioningCidr6 h
  | networkIf => exact congrArg Template.networkIf h
  | secondaryNetworkIf => exact congrArg Template.secondaryNetworkIf h
  | ledgerPath | lockPath | lockTimeout | lockPoll | uri | virshPath | maxAttempts => cases hk

/-! ## Conversions -/

/-- What is read from a plain value, wherever that comes from. -/
def Kind.ofScalar? (κ : Kind) (s : Toml.Scalar) : Option κ.Value := (κ.read (.scalar "" s)).toOption

/-- The plain value that is given. -/
def Given.scalar? : Given → Option Toml.Scalar
  | .byVariable text => some (variableValue text)
  | .byFile (.scalar s) => some s
  | .byFile _ => none

/-- The value that is given for a setting of that kind, if it converts to one. -/
def Given.value? (κ : Kind) (g : Given) : Option κ.Value := g.scalar?.bind κ.ofScalar?

theorem toOption_scalarNatural (origin : String) (s : Toml.Scalar) :
    (scalarNatural origin s).toOption = (scalarNatural "" s).toOption := by
  cases s with
  | boolean | float => rfl
  | integer i =>
      rw [scalarNatural, scalarNatural]
      split <;> rfl
  | text t =>
      rw [scalarNatural, scalarNatural]
      cases textNatural? t <;> rfl

theorem toOption_bind_congr {α β : Type} {x y : Except Fault α} (h : x.toOption = y.toOption)
    (f : α → Except Fault β) : (x >>= f).toOption = (y >>= f).toOption := by
  have hbind (x : Except Fault α) : (x >>= f).toOption = x.toOption.bind fun a => (f a).toOption := by
    cases x <;> rfl
  rw [hbind, hbind, h]

theorem Kind.toOption_read_scalar (κ : Kind) (origin : String) (s : Toml.Scalar) :
    (κ.read (.scalar origin s)).toOption = κ.ofScalar? s := by
  have hnatural := toOption_scalarNatural origin s
  cases κ with
  | text | subnet => rfl
  | number w =>
      cases w with
      | word => exact hnatural
      | short => exact toOption_bind_congr hnatural _

theorem Given.toOption_read (κ : Kind) (origin : String) (g : Given) :
    (κ.read (g.layered origin)).toOption = g.value? κ := by
  have hparts {v : Layered} (h : ∀ o s, v ≠ .scalar o s) : (κ.read v).toOption = none := by
    cases hread : κ.read v with
    | error fault => rfl
    | ok a =>
        obtain ⟨o, s, heq⟩ := Kind.exists_scalar_of_read hread
        exact absurd heq (h o s)
  cases g with
  | byVariable text => exact κ.toOption_read_scalar _ _
  | byFile v =>
      cases v with
      | scalar s => exact κ.toOption_read_scalar _ _
      | list | tables => exact hparts nofun
      | table form es =>
          obtain ⟨origin', es', hlaid⟩ := Layered.exists_laid_eq_table origin form es
          rw [layered, hlaid]
          exact hparts nofun

theorem Given.layered_ne_gap (g : Given) (origin : String) : g.layered origin ≠ .gap := by
  cases g with
  | byVariable text => nofun
  | byFile v =>
      cases v with
      | table form es =>
          obtain ⟨origin', es', hlaid⟩ := Layered.exists_laid_eq_table origin form es
          rw [layered, hlaid]
          nofun
      | scalar | list | tables => nofun

/-! ## Values -/

/-- The value of a setting: what is given for it, or else its default. Where a template is mentioned
its settings have none. -/
def Key.resolve? {κ : Kind} (k : Key κ) (mentioned : Bool) : Option Given → Option κ.Value
  | some g => g.value? κ
  | none => if k.inTemplate && mentioned then none else k.value? standard

/-- The place of a field of the template. -/
def templatePlace (f : Field) : List String := [groupKey, templateKey, f.name]

section Layers

variable {ls : Layers} {given? : List String → Option Given} {origin : String} {mentioned : Bool}
  {s : Settings} (h : ls.Holds (fun place => (given? place).map (Given.layered origin)) mentioned)
include h

/-- Settings are read if everything that is given for them converts. -/
theorem exists_ofLayers
    (hconverts : ∀ {κ} (k : Key κ), ∀ g ∈ given? k.path, g.value? κ ≠ none) :
    ∃ s, ofLayers ls = .ok s := by
  rw [h.ofLayers_eq]
  refine h.settingsTable.exists_asGroup fun {κ} k v hv => ?_
  obtain ⟨g, hg, rfl⟩ := Option.map_eq_some_iff.mp hv
  have hvalue := hconverts k g hg
  rw [← g.toOption_read κ origin] at hvalue
  cases hread : κ.read (g.layered origin) with
  | ok a => exact ⟨a, rfl⟩
  | error fault =>
      rw [hread] at hvalue
      exact absurd rfl hvalue

variable (hs : ofLayers ls = .ok s)
include hs

theorem Key.value?_of_given {κ : Kind} (k : Key κ) {g : Given} (hg : given? k.path = some g) :
    ∃ a, g.value? κ = some a ∧ k.value? s = some a := by
  have hlayered : ls.get? k.path = some (g.layered origin) := by
    rw [h.leaf k.isLeaf, hg]
    rfl
  obtain ⟨a, hread, hvalue⟩ := k.value?_of_get? hs (g.layered_ne_gap origin) hlayered
  refine ⟨a, ?_, hvalue⟩
  rw [← g.toOption_read κ origin, hread]
  rfl

theorem Key.value?_eq_resolve? {κ : Kind} (k : Key κ) :
    k.value? s = k.resolve? mentioned (given? k.path) := by
  cases hg : given? k.path with
  | some g =>
      obtain ⟨a, hvalue, hs⟩ := k.value?_of_given h hs hg
      exact hs.trans hvalue.symm
  | none =>
      have htable := h.settingsTable
      have hnone : (given? k.path).map (Given.layered origin) = none := by rw [hg, Option.map_none]
      rw [h.ofLayers_eq] at hs
      rw [resolve?]
      cases hk : k.inTemplate with
      | false => exact k.value?_of_setting htable hs hk hnone
      | true =>
          cases hmentioned : mentioned with
          | true => exact k.value?_of_mentioned htable hs hk hmentioned hnone
          | false => exact k.value?_congr_template hk (template_eq_standard htable hs hmentioned)

theorem value?_template_of_mentioned (hmentioned : mentioned = true) {f : Field}
    (hnone : given? (templatePlace f) = none) : s.template.value? f = none := by
  have habsent {κ : Kind} (k : Key κ) (hk : k.inTemplate = true) (hnone : given? k.path = none) :
      k.value? s = none := by
    rw [k.value?_eq_resolve? h hs, hnone, Key.resolve?, hk, hmentioned]
    rfl
  cases f with
  | machineCidr => exact habsent .machineCidr rfl hnone
  | machineCidr6 => exact habsent .machineCidr6 rfl hnone
  | provisioningCidr => exact habsent .provisioningCidr rfl hnone
  | provisioningCidr6 => exact habsent .provisioningCidr6 rfl hnone
  | networkIf => exact habsent .networkIf rfl hnone
  | secondaryNetworkIf => exact habsent .secondaryNetworkIf rfl hnone

end Layers

/-! ## Loaded settings -/

/-- What settings are, by what is said for them. -/
structure Resolves (entries : Toml.Entries) (env : List (String × String)) (s : Settings) :
    Prop where
  /-- The value of a setting depends on what is said for it, and on nothing else. -/
  value : ∀ {κ} (k : Key κ),
    k.value? s = k.resolve? (mentionsTemplate entries env) (given? entries env k.path)
  template : mentionsTemplate entries env = false → s.template = .standard
  /-- In a template that is mentioned there are no defaults. -/
  absent : mentionsTemplate entries env = true → ∀ f,
    given? entries env (templatePlace f) = none → s.template.value? f = none
  /-- The first field that is absent or unusable is reported. -/
  check : mentionsTemplate entries env = true → ∀ f, given? entries env (templatePlace f) = none →
    ∃ g e, s.template.check = .error e ∧ (∀ g' ∈ g.earlier, ∃ v, s.template.Offers g' v) ∧
      s.template.Lacks g e

/-- Settings are what their keys lead to. -/
theorem eq_of_value? {s s' : Settings} (h : ∀ {κ} (k : Key κ), k.value? s = k.value? s') :
    s = s' := by
  obtain ⟨_, _, _, _, _, _, _, ⟨_, _, _, _, _, _⟩⟩ := s
  obtain ⟨_, _, _, _, _, _, _, ⟨_, _, _, _, _, _⟩⟩ := s'
  simp only [mk.injEq, Template.mk.injEq]
  exact ⟨Option.some.inj (h .ledgerPath), h .lockPath, Option.some.inj (h .lockTimeout),
    Option.some.inj (h .lockPoll), Option.some.inj (h .uri), Option.some.inj (h .virshPath),
    Option.some.inj (h .maxAttempts), h .machineCidr, h .machineCidr6, h .provisioningCidr,
    h .provisioningCidr6, h .networkIf, h .secondaryNetworkIf⟩

/-- Two files say the same, apart from settings that variables fill. -/
structure AgreeApart (env : List (String × String)) (entries entries' : Toml.Entries) : Prop where
  key : ∀ {κ} (k : Key κ), variableText? k.path env = none →
    entries'.get? k.path = entries.get? k.path
  template : variesTemplate env = false →
    (entries'.get? [groupKey, templateKey]).isSome = (entries.get? [groupKey, templateKey]).isSome

section AgreeApart

variable {env : List (String × String)} {entries entries' : Toml.Entries}
  (h : AgreeApart env entries entries')
include h

theorem AgreeApart.mentionsTemplate_eq :
    mentionsTemplate entries' env = mentionsTemplate entries env := by
  rw [mentionsTemplate, mentionsTemplate]
  cases hvaries : variesTemplate env with
  | true => rw [Bool.or_true, Bool.or_true]
  | false => rw [h.template hvaries]

theorem AgreeApart.given?_eq {κ : Kind} (k : Key κ) :
    given? entries' env k.path = given? entries env k.path := by
  rw [given?, given?]
  cases hvariable : variableText? k.path env with
  | some text => rfl
  | none => rw [h.key k hvariable]

end AgreeApart

section Load

variable {others : OtherFormats} {fs : FileSystem} {env : List (String × String)} {name : String}
  {entries : Toml.Entries} (hformat : isInOtherFormat fs name = false)
  (hfile : fileEntries? fs name = some entries) (htidy : IsTidy entries) (henv : LeavesOnly env)
include hformat hfile htidy henv

theorem load_eq_error_iff :
    (∃ fault, loadReading others fs env name = .error fault) ↔
      ∃ κ, ∃ k : Key κ, ∃ g ∈ given? entries env k.path, g.value? κ = none := by
  obtain ⟨ls, hload, hholds⟩ := exists_layers_of_load hformat hfile htidy henv
  constructor
  · rintro ⟨fault, hfault⟩
    by_contra hconverts
    obtain ⟨s, hs⟩ := exists_ofLayers hholds fun k g hg hnone => hconverts ⟨_, k, g, hg, hnone⟩
    cases hfault.symm.trans (hload.trans hs)
  · rintro ⟨κ, k, g, hg, hnone⟩
    refine exists_error_of_ne_ok fun s hs => ?_
    obtain ⟨a, hvalue, -⟩ := k.value?_of_given hholds (hload.symm.trans hs) hg
    cases hnone.symm.trans hvalue

theorem resolves_of_load {s : Settings} (hs : loadReading others fs env name = .ok s) :
    Resolves entries env s := by
  obtain ⟨ls, hload, hholds⟩ := exists_layers_of_load hformat hfile htidy henv
  rw [hload] at hs
  have habsent {f : Field} (hmentioned : mentionsTemplate entries env = true)
      (hnone : given? entries env (templatePlace f) = none) : s.template.value? f = none :=
    value?_template_of_mentioned hholds hs hmentioned hnone
  refine ⟨fun k => k.value?_eq_resolve? hholds hs, fun hmentioned => ?_, fun h f => habsent h,
    fun h f hnone => s.template.exists_lacks (habsent h hnone)⟩
  rw [hholds.ofLayers_eq] at hs
  exact template_eq_standard hholds.settingsTable hs hmentioned

section Two

variable {fs' : FileSystem} {entries' : Toml.Entries} (hformat' : isInOtherFormat fs' name = false)
  (hfile' : fileEntries? fs' name = some entries') (htidy' : IsTidy entries')
  (h : AgreeApart env entries entries')
include hformat' hfile' htidy' h

/-- What the file says for settings that variables fill has no influence on the settings. -/
theorem toOption_load_congr :
    (loadReading others fs' env name).toOption = (loadReading others fs env name).toOption := by
  have herror : (∃ fault, loadReading others fs' env name = .error fault) ↔
      ∃ fault, loadReading others fs env name = .error fault := by
    rw [load_eq_error_iff hformat hfile htidy henv, load_eq_error_iff hformat' hfile' htidy' henv]
    simp only [h.given?_eq]
  cases hs : loadReading others fs env name with
  | error fault =>
      obtain ⟨fault', hfault'⟩ := herror.mpr ⟨fault, hs⟩
      rw [hfault']
      rfl
  | ok s =>
      cases hs' : loadReading others fs' env name with
      | error fault' =>
          obtain ⟨fault, hfault⟩ := herror.mp ⟨fault', hs'⟩
          cases hs.symm.trans hfault
      | ok s' =>
          refine congrArg some (eq_of_value? fun k => ?_)
          rw [(resolves_of_load hformat hfile htidy henv hs).value k,
            (resolves_of_load hformat' hfile' htidy' henv hs').value k, h.mentionsTemplate_eq,
            h.given?_eq]

/-- Nor has it an influence on the faults, which name the file. -/
theorem load_congr (horigin : fileOrigin fs' name = fileOrigin fs name) :
    loadReading others fs' env name = loadReading others fs env name := by
  obtain ⟨ls, hload, hholds⟩ := exists_layers_of_load hformat hfile htidy henv
  obtain ⟨ls', hload', hholds'⟩ := exists_layers_of_load hformat' hfile' htidy' henv
  rw [horigin, h.mentionsTemplate_eq] at hholds'
  rw [hload, hload', hholds.ofLayers_eq, hholds'.ofLayers_eq]
  exact hholds'.settingsTable.asGroup_congr hholds.settingsTable fun k => by rw [h.given?_eq]

end Two

/-- Settings in layers, where no file in another format is found. Loading fails exactly if something
that is given for a setting does not convert to its kind. Otherwise each setting is what is given for
it or its default, where the defaults of the template count as a whole. What the file says for a
setting that a variable fills has no influence. -/
theorem load_layered :
    ((∃ fault, loadReading others fs env name = .error fault) ↔
      ∃ κ, ∃ k : Key κ, ∃ g ∈ given? entries env k.path, g.value? κ = none) ∧
    (∀ s, loadReading others fs env name = .ok s → Resolves entries env s) ∧
    ∀ fs' entries', isInOtherFormat fs' name = false → fileEntries? fs' name = some entries' →
      IsTidy entries' → AgreeApart env entries entries' →
        (loadReading others fs' env name).toOption = (loadReading others fs env name).toOption ∧
          (fileOrigin fs' name = fileOrigin fs name →
            loadReading others fs' env name = loadReading others fs env name) :=
  ⟨load_eq_error_iff hformat hfile htidy henv, fun _ => resolves_of_load hformat hfile htidy henv,
    fun _ _ hformat' hfile' htidy' h =>
      ⟨toOption_load_congr hformat hfile htidy henv hformat' hfile' htidy' h,
        load_congr hformat hfile htidy henv hformat' hfile' htidy' h⟩⟩

end Load

/-! ## A load in layers -/

theorem leavesOnly_nil : LeavesOnly [] := nofun

theorem LeavesOnly.cons {κ : Kind} (k : Key κ) (text : String) {env : List (String × String)}
    (h : LeavesOnly env) : LeavesOnly ((k.variableName, text) :: env) := by
  refine List.forall_mem_cons.mpr ⟨fun path hpath => ⟨k.path, k.isLeaf, ?_⟩, h⟩
  exact Option.some.inj (hpath.symm.trans k.keyPath_variableName)

/-- How many attempts are due, and one field of the template. -/
def layeredEnv : List (String × String) := [
  (Key.maxAttempts.variableName, "9"),
  (Key.machineCidr.variableName, "10.0.0.0/24")]

theorem leavesOnly_layeredEnv : LeavesOnly layeredEnv :=
  .cons .maxAttempts "9" (.cons .machineCidr "10.0.0.0/24" leavesOnly_nil)

theorem fileEntries?_filesWith {text : String} {entries : Toml.Entries}
    (hread : Toml.read? text = some entries) :
    fileEntries? (filesWith text) "netres" = some entries := by
  rw [fileEntries?, source?_filesWith]
  exact hread

theorem isTidy_givenEntries (attempts : Int) : IsTidy (givenEntries attempts) where
  keys := by
    have hgroup : Toml.IsPlainKey groupKey := by decide +kernel
    have hattempts : Toml.IsPlainKey maxAttemptsKey := by decide +kernel
    have htable : Toml.Value.PlainKeys (.table .headed [(maxAttemptsKey, .scalar (.integer attempts))]) :=
      .table (List.forall_mem_singleton.mpr hattempts) (List.forall_mem_singleton.mpr (.scalar _))
    exact ⟨List.forall_mem_singleton.mpr hgroup, List.forall_mem_singleton.mpr htable⟩
  group v hv := ⟨_, _, (Option.some.inj hv).symm⟩
  template v hv := by cases hv

theorem exists_load_layeredEnv :
    ∃ s, load (filesWith "[reserve]\nmax_attempts = 7") layeredEnv "netres" = .ok s := by
  rw [load_filesWith read?_seven]
  exact exists_ok_of_isSome (by decide +kernel)

/-- How many attempts the file says is of no influence. -/
theorem agreeApart_givenEntries (attempts attempts' : Int) :
    AgreeApart layeredEnv (givenEntries attempts) (givenEntries attempts') where
  key k hnone := by
    cases k with
    | maxAttempts =>
        have hvariable : variableText? Key.maxAttempts.path layeredEnv = some "9" := by
          decide +kernel
        cases hnone.symm.trans hvariable
    | ledgerPath | lockPath | lockTimeout | lockPoll | uri | virshPath | machineCidr | machineCidr6
    | provisioningCidr | provisioningCidr6 | networkIf | secondaryNetworkIf => rfl
  template _ := rfl

/-- The variable counts although the file says something else, which could not even be read. The file
has no template, but as a variable sets one field of it the others are absent. -/
theorem load_layered_givenEntries :
    (∃ s, load (filesWith "[reserve]\nmax_attempts = 7") layeredEnv "netres" = .ok s ∧
      load (filesWith "[reserve]\nmax_attempts = -7") layeredEnv "netres" = .ok s ∧
      s.maxAttempts = 9 ∧ s.virshPath = "virsh" ∧
      s.template.machineCidr = Subnet.ofText? .v4 "10.0.0.0/24" ∧
      s.template.check = .error (.missing .machineCidr6)) ∧
    ∃ fault, load (filesWith "[reserve]\nmax_attempts = -7") [] "netres" = .error fault := by
  have hseven := fileEntries?_filesWith read?_seven
  have hnegative := fileEntries?_filesWith read?_negative
  obtain ⟨s, hs⟩ := exists_load_layeredEnv
  obtain ⟨-, hresolves, hcongr⟩ :=
    load_layered (isInOtherFormat_filesWith _) hseven (isTidy_givenEntries 7) leavesOnly_layeredEnv
  have horigin : fileOrigin (filesWith "[reserve]\nmax_attempts = -7") "netres" =
      fileOrigin (filesWith "[reserve]\nmax_attempts = 7") "netres" := by
    rw [fileOrigin, fileOrigin, source?_filesWith, source?_filesWith]
  have hmentioned : mentionsTemplate (givenEntries 7) layeredEnv = true := by decide +kernel
  have hloaded := hresolves s hs
  have hset {names : List String} {text : String} (hsome : variableText? names layeredEnv = some text) :
      given? (givenEntries 7) layeredEnv names = some (.byVariable text) := by
    rw [given?, hsome]
  have hunset {names : List String} (hnone : variableText? names layeredEnv = none)
      (hentry : (givenEntries 7).get? names = none) :
      given? (givenEntries 7) layeredEnv names = none := by
    rw [given?, hnone, hentry]
    rfl
  have hmachineCidr : s.template.machineCidr = Subnet.ofText? .v4 "10.0.0.0/24" := by
    have hvariable : variableText? Key.machineCidr.path layeredEnv = some "10.0.0.0/24" := by
      decide +kernel
    have hconverts : ((Layered.scalar "" (variableValue "10.0.0.0/24")).asSubnet .v4).toOption =
        Subnet.ofText? .v4 "10.0.0.0/24" := by decide +kernel
    have hvalue := hloaded.value .machineCidr
    rw [hset hvariable] at hvalue
    exact hvalue.trans hconverts
  refine ⟨⟨s, hs, ?_, ?_, ?_, hmachineCidr, ?_⟩, ?_⟩
  · have hagree := agreeApart_givenEntries 7 (-7)
    obtain ⟨_, hsame⟩ :=
      hcongr _ _ (isInOtherFormat_filesWith _) hnegative (isTidy_givenEntries (-7)) hagree
    exact (hsame horigin).trans hs
  · have hvariable : variableText? Key.maxAttempts.path layeredEnv = some "9" := by decide +kernel
    have hconverts : (Layered.scalar "" (variableValue "9")).asShort.toOption = some 9 := by
      decide +kernel
    have hvalue := hloaded.value .maxAttempts
    rw [hset hvariable] at hvalue
    exact Option.some.inj (hvalue.trans hconverts)
  · have hvalue := hloaded.value .virshPath
    rw [hunset (by decide +kernel) rfl] at hvalue
    exact Option.some.inj hvalue
  · obtain ⟨n, hn⟩ : ∃ n, Subnet.ofText? .v4 "10.0.0.0/24" = some n :=
      Option.isSome_iff_exists.mp (by decide +kernel)
    have hoffers : s.template.Offers .machineCidr n := ⟨hmachineCidr.trans hn, trivial⟩
    have habsent := hloaded.absent hmentioned .machineCidr6 (hunset (by decide +kernel) rfl)
    refine (s.template.check_eq_error_iff _).mpr ⟨.machineCidr6, ?_, .missing habsent⟩
    exact List.forall_mem_singleton.mpr ⟨n, hoffers⟩
  · refine (load_layered (isInOtherFormat_filesWith _) hnegative (isTidy_givenEntries (-7))
      leavesOnly_nil).1.mpr ?_
    exact ⟨_, .maxAttempts, .byFile (.scalar (.integer (-7))), rfl, rfl⟩

end NetPool.Settings
