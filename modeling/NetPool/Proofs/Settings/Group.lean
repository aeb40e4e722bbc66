import NetPool.Proofs.Settings.Place

/-! # Groups of settings

What is read from layers depends on what they hold at the places of settings, and on whether there is
a template, and on nothing else. -/

namespace NetPool.Settings

/-! ## Fields -/

/-- Tables are read alike if their fields are. -/
theorem Layered.asGroup_congr {ρ : Type} {group : Group} {fields : List (GroupField ρ)}
    {origin origin' : Option String} {es es' : Layers}
    (h : ∀ field ∈ fields, (es.lookup field.name).map field.read =
      (es'.lookup field.name).map field.read) (start : ρ) :
    (table origin es).asGroup group fields start = (table origin' es').asGroup group fields start := by
  rw [asGroup, asGroup]
  induction fields generalizing start with
  | nil => rfl
  | cons field fields ih =>
      obtain ⟨hfield, hfields⟩ := List.forall_mem_cons.mp h
      rw [List.foldlM_cons, List.foldlM_cons]
      congr 1
      · cases hlookup : es.lookup field.name with
        | none =>
            rw [hlookup] at hfield
            rw [Option.map_eq_none_iff.mp hfield.symm]
        | some v =>
            rw [hlookup] at hfield
            obtain ⟨v', hv', hread⟩ := Option.map_eq_some_iff.mp hfield.symm
            rw [hv']
            exact (congrFun hread start).symm
      · funext parts
        exact ih hfields parts

/-- A group is read if its fields are. -/
theorem Layered.exists_asGroup {ρ : Type} {group : Group} {fields : List (GroupField ρ)}
    {origin : Option String} {es : Layers}
    (h : ∀ field ∈ fields, ∀ v ∈ es.lookup field.name, ∀ parts, ∃ parts',
      field.read v parts = .ok parts') (start : ρ) :
    ∃ parts, (table origin es).asGroup group fields start = .ok parts := by
  rw [asGroup]
  induction fields generalizing start with
  | nil => exact ⟨start, rfl⟩
  | cons field fields ih =>
      obtain ⟨hfield, hfields⟩ := List.forall_mem_cons.mp h
      rw [List.foldlM_cons]
      cases hlookup : es.lookup field.name with
      | none => exact ih hfields start
      | some v =>
          obtain ⟨parts, hparts⟩ := hfield v hlookup start
          simp only [hparts]
          exact ih hfields parts

theorem exists_read_groupField {ρ α : Type} {name : String} {read : Layered → Except Fault α}
    {store : ρ → α → ρ} {v : Layered} (h : ∃ a, read v = .ok a) (parts : ρ) :
    ∃ parts', (groupField name read store).read v parts = .ok parts' := by
  obtain ⟨a, ha⟩ := h
  exact ⟨store parts a, congrArg (Except.map (store parts)) ha⟩

theorem exists_read_optionalField {ρ α : Type} {name : String} {read : Layered → Except Fault α}
    {store : ρ → Option α → ρ} {v : Layered} (h : ∃ a, read v = .ok a) (parts : ρ) :
    ∃ parts', (optionalField name read store).read v parts = .ok parts' := by
  apply exists_read_groupField
  cases v with
  | gap => exact ⟨none, rfl⟩
  | scalar | list | table =>
      obtain ⟨a, ha⟩ := h
      exact ⟨some a, congrArg (Except.map some) ha⟩

/-- The field holds the setting at that place. -/
def GroupField.HoldsAt {ρ : Type} (field : GroupField ρ) (place : List String) : Prop :=
  ∃ κ, ∃ k : Key κ, k.path = place ∧ ∀ v, (∃ a, κ.read v = .ok a) →
    ∀ parts, ∃ parts', field.read v parts = .ok parts'

theorem holdsAt_of_mem_templateFields :
    ∀ field ∈ templateFields, field.HoldsAt [groupKey, templateKey, field.name] := by
  simp only [templateFields, List.forall_mem_cons]
  exact ⟨⟨_, .machineCidr, rfl, fun _ => exists_read_optionalField⟩,
    ⟨_, .machineCidr6, rfl, fun _ => exists_read_optionalField⟩,
    ⟨_, .provisioningCidr, rfl, fun _ => exists_read_optionalField⟩,
    ⟨_, .provisioningCidr6, rfl, fun _ => exists_read_optionalField⟩,
    ⟨_, .networkIf, rfl, fun _ => exists_read_optionalField⟩,
    ⟨_, .secondaryNetworkIf, rfl, fun _ => exists_read_optionalField⟩,
    List.forall_mem_nil _⟩

/-- The template apart, the fields of settings hold one setting each. -/
theorem holdsAt_of_mem_settingsFields :
    ∀ field ∈ settingsFields,
      (field.name = templateKey ∧
          field.read = fun v s => v.asTemplate.map fun t => { s with template := t }) ∨
        (field.name ≠ templateKey ∧ field.HoldsAt [groupKey, field.name]) := by
  simp only [settingsFields, List.forall_mem_cons]
  exact ⟨.inr ⟨by decide, _, .ledgerPath, rfl, fun _ => exists_read_groupField⟩,
    .inr ⟨by decide, _, .lockPath, rfl, fun _ => exists_read_optionalField⟩,
    .inr ⟨by decide, _, .lockTimeout, rfl, fun _ => exists_read_groupField⟩,
    .inr ⟨by decide, _, .lockPoll, rfl, fun _ => exists_read_groupField⟩,
    .inr ⟨by decide, _, .uri, rfl, fun _ => exists_read_groupField⟩,
    .inr ⟨by decide, _, .virshPath, rfl, fun _ => exists_read_groupField⟩,
    .inr ⟨by decide, _, .maxAttempts, rfl, fun _ => exists_read_groupField⟩,
    .inl ⟨rfl, rfl⟩, List.forall_mem_nil _⟩

/-! ## Tables of settings -/

variable {ls ls' : Layers} {given given' : List String → Option Layered} {mentioned : Bool}

/-- The table `es` holds what is given for settings, and the one of the template in it what is given for
that. -/
structure Layers.SettingsTable (es : Layers) (given : List String → Option Layered)
    (mentioned : Bool) : Prop where
  setting : ∀ {name}, name ≠ templateKey → es.lookup name = given [groupKey, name]
  absent : mentioned = false →
    es.lookup templateKey = none ∧ ∀ name, given [groupKey, templateKey, name] = none
  present : mentioned = true → ∃ origin inner, es.lookup templateKey = some (.table origin inner) ∧
    ∀ name, inner.lookup name = given [groupKey, templateKey, name]

theorem Layered.get?_append (front back : List String) (v : Layered) :
    v.get? (front ++ back) = (v.get? front).bind (get? back) := by
  induction front generalizing v with
  | nil => rfl
  | cons name front ih =>
      rw [List.cons_append, get?, get?, Option.bind_assoc]
      exact congrArg _ (funext ih)

theorem Layered.get?_singleton (v : Layered) (name : String) :
    v.get? [name] = v.asTable.2.lookup name := by
  rw [get?]
  cases v.asTable.2.lookup name <;> rfl

/-- The table of the settings. Without one there are no entries. -/
def Layers.settings (ls : Layers) : Layers := ((ls.get? [groupKey]).getD (.table none [])).asTable.2

theorem Layers.lookup_settings (ls : Layers) (name : String) :
    ls.settings.lookup name = ls.get? [groupKey, name] := by
  show _ = (Layered.table none ls).get? ([groupKey] ++ [name])
  rw [Layered.get?_append, settings, get?]
  cases (Layered.table none ls).get? [groupKey] with
  | none => rfl
  | some v => exact (v.get?_singleton name).symm

theorem Layers.Holds.settingsTable (h : ls.Holds given mentioned) :
    ls.settings.SettingsTable given mentioned := by
  have hinner (name : String) : given [groupKey, templateKey, name] =
      (ls.get? [groupKey, templateKey]).bind (Layered.get? [name]) := by
    rw [← h.leaf (.template name)]
    exact Layered.get?_append [groupKey, templateKey] [name] (.table none ls)
  refine ⟨fun hname => by rw [lookup_settings, h.leaf (.setting hname)], ?_, ?_⟩
  · rintro rfl
    obtain ⟨-, hnone⟩ : _ ∧ _ := h.template.resolve_right (by simp)
    exact ⟨by rw [lookup_settings, hnone], fun name => by rw [hinner, hnone]; rfl⟩
  · rintro rfl
    obtain ⟨-, origin, inner, hsome⟩ := h.template.resolve_left (by simp)
    refine ⟨origin, inner, by rw [lookup_settings, get?, hsome], fun name => ?_⟩
    rw [hinner, get?, hsome]
    exact (Layered.get?_singleton (.table origin inner) name).symm

theorem Layers.Holds.ofLayers_eq (h : ls.Holds given mentioned) :
    ofLayers ls = (Layered.table none ls.settings).asGroup .settings settingsFields standard := by
  have hlookup : ls.lookup groupKey = ls.get? [groupKey] :=
    ((Layered.table none ls).get?_singleton groupKey).symm
  rw [ofLayers, settings, hlookup]
  rcases h.group with hnone | ⟨origin, es, hes⟩
  · rw [hnone]
    rfl
  · rw [Layers.get?, hes]
    rfl

theorem Layers.SettingsTable.asGroup_congr {es es' : Layers} (h : es.SettingsTable given mentioned)
    (h' : es'.SettingsTable given' mentioned)
    (heq : ∀ {κ} (k : Key κ), given k.path = given' k.path) :
    (Layered.table none es).asGroup .settings settingsFields standard =
      (Layered.table none es').asGroup .settings settingsFields standard := by
  apply Layered.asGroup_congr
  intro field hfield
  rcases holdsAt_of_mem_settingsFields field hfield with ⟨hname, hread⟩ | ⟨hname, κ, k, hplace, -⟩
  · rw [hname, hread]
    cases mentioned with
    | false => rw [(h.absent rfl).1, (h'.absent rfl).1]
    | true =>
        obtain ⟨origin, inner, hlookup, hinner⟩ := h.present rfl
        obtain ⟨origin', inner', hlookup', hinner'⟩ := h'.present rfl
        have hsame : (Layered.table origin inner).asTemplate =
            (Layered.table origin' inner').asTemplate := by
          apply Layered.asGroup_congr
          intro field hfield
          obtain ⟨κ, k, hplace, -⟩ := holdsAt_of_mem_templateFields field hfield
          rw [hinner, hinner', ← hplace, heq]
        rw [hlookup, hlookup', Option.map_some, Option.map_some, hsame]
  · rw [h.setting hname, h'.setting hname, ← hplace, heq]

theorem Layers.SettingsTable.exists_asGroup {es : Layers} (h : es.SettingsTable given mentioned)
    (hread : ∀ {κ} (k : Key κ), ∀ v ∈ given k.path, ∃ a, κ.read v = .ok a) :
    ∃ s, (Layered.table none es).asGroup .settings settingsFields standard = .ok s := by
  refine Layered.exists_asGroup (fun field hfield v hv s => ?_) standard
  rcases holdsAt_of_mem_settingsFields field hfield with ⟨hname, hfieldRead⟩ | ⟨hname, κ, k, hplace, hok⟩
  · rw [hname] at hv
    cases mentioned with
    | false =>
        rw [(h.absent rfl).1] at hv
        cases hv
    | true =>
        obtain ⟨origin, inner, hlookup, hinner⟩ := h.present rfl
        obtain rfl := Option.some.inj (hlookup.symm.trans hv)
        have htemplate : ∃ t, (Layered.table origin inner).asTemplate = .ok t := by
          refine Layered.exists_asGroup (fun field hfield v hv t => ?_) Template.blank
          obtain ⟨κ, k, hplace, hok⟩ := holdsAt_of_mem_templateFields field hfield
          rw [hinner, ← hplace] at hv
          exact hok v (hread k v hv) t
        obtain ⟨t, ht⟩ := htemplate
        rw [hfieldRead]
        exact ⟨_, congrArg (Except.map _) ht⟩
  · rw [h.setting hname, ← hplace] at hv
    exact hok v (hread k v hv) s

end NetPool.Settings
