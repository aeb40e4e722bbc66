import NetPool.Proofs.Settings.File
import NetPool.Proofs.Settings.Key
import NetPool.Proofs.Settings.Source

/-! # Places of settings

A setting without parts has one place, which the file and variables may fill. A variable counts before
the file, and no place has an influence on what is found at another one. -/

namespace NetPool.Settings

/-- The places of settings without parts, unknown ones included. -/
inductive IsLeaf : List String → Prop where
  | setting {name : String} (h : name ≠ templateKey) : IsLeaf [groupKey, name]
  | template (name : String) : IsLeaf [groupKey, templateKey, name]

theorem Key.isLeaf {κ : Kind} (k : Key κ) : IsLeaf k.path := by
  cases k with
  | machineCidr | machineCidr6 | provisioningCidr | provisioningCidr6 | networkIf
  | secondaryNetworkIf => exact .template _
  | ledgerPath | lockPath | lockTimeout | lockPoll | uri | virshPath | maxAttempts =>
      exact .setting (by decide)

/-! ## Variables -/

/-- The path that the name of a variable spells, if it is one for settings. -/
def variablePath? (name : String) : Option (List Step) := (variableKey? name).map keyPath

/-- Variables for settings lead to settings without parts. -/
def LeavesOnly (env : List (String × String)) : Prop :=
  ∀ e ∈ env, ∀ path, variablePath? e.1 = some path → ∃ names, IsLeaf names ∧ path = names.map .name

/-- The text of the variable for a place, the last one if there are several. -/
def variableText? (names : List String) : List (String × String) → Option String
  | [] => none
  | e :: env =>
    (variableText? names env).or
      (if variablePath? e.1 = some (names.map .name) then some e.2 else none)

/-- Whether a variable leads into the template. -/
def variesTemplate (env : List (String × String)) : Bool :=
  env.any fun e => (variablePath? e.1).any (·.take 2 = [.name groupKey, .name templateKey])

/-! ## What is given for a place -/

/-- What a variable or the file says. -/
inductive Given where
  | byVariable (text : String)
  | byFile (v : Toml.Value)

/-- What is said for a place: by a variable, or else by the file. -/
def given? (entries : Toml.Entries) (env : List (String × String)) (names : List String) :
    Option Given :=
  match variableText? names env with
  | some text => some (.byVariable text)
  | none => (entries.get? names).map .byFile

/-- Whether something is said for the template. -/
def mentionsTemplate (entries : Toml.Entries) (env : List (String × String)) : Bool :=
  (entries.get? [groupKey, templateKey]).isSome || variesTemplate env

def variableLayered (text : String) : Layered :=
  .scalar Layers.environmentName (variableValue text)

/-- What the layers hold of it. -/
def Given.layered (origin : String) : Given → Layered
  | .byVariable text => variableLayered text
  | .byFile v => .laid origin v

/-! ## What the layers hold -/

/-- A table is found there. -/
def Layered.TableAt (v : Layered) (names : List String) : Prop :=
  ∃ origin entries, v.get? names = some (.table origin entries)

/-- The layers hold what is given at the places of settings. The groups of settings are tables, and the
template is one of them if it is mentioned. -/
structure Layers.Holds (ls : Layers) (given : List String → Option Layered) (mentioned : Bool) :
    Prop where
  leaf : ∀ {names}, IsLeaf names → ls.get? names = given names
  group : ls.get? [groupKey] = none ∨ (Layered.table none ls).TableAt [groupKey]
  template : (mentioned = false ∧ ls.get? [groupKey, templateKey] = none) ∨
    (mentioned = true ∧ (Layered.table none ls).TableAt [groupKey, templateKey])

theorem Layered.exists_putAt (v : Layered) {names : List String} (h : names ≠ []) (u : Layered) :
    ∃ u', putAt v (names.map .name) u = .ok u' := by
  induction names generalizing u with
  | nil => exact absurd rfl h
  | cons name names ih =>
      cases names with
      | nil => exact ⟨_, rfl⟩
      | cons next names =>
          obtain ⟨placed, hplaced⟩ := ih (by simp) ((u.asTable.2.lookup name).getD .gap)
          rw [List.map_cons, putAt]
          · simp only [hplaced]
            exact ⟨_, rfl⟩
          · exact List.cons_ne_nil _ _

/-- What stands on the way to a place is a table. -/
theorem Layered.tableAt_of_putAt {v : Layered} {front back : List String} (h : back ≠ [])
    {u u' : Layered} (hput : putAt v ((front ++ back).map .name) u = .ok u') : u'.TableAt front := by
  induction front generalizing u u' with
  | nil =>
      obtain ⟨name, names, rfl⟩ := List.exists_cons_of_ne_nil h
      obtain ⟨placed, rfl, -⟩ := putAt_name_eq_ok hput
      exact ⟨_, _, rfl⟩
  | cons name front ih =>
      obtain ⟨placed, rfl, hplaced⟩ := putAt_name_eq_ok hput
      have hrest : (front ++ back).map Step.name ≠ [] := by simp [h]
      rcases hplaced with ⟨hnil, -⟩ | ⟨-, hplaced⟩
      · exact absurd hnil hrest
      · rw [TableAt, get?_replace, if_pos rfl]
        exact ih hplaced

/-- Different places fork. -/
theorem IsLeaf.forks {names names' : List String} (h : IsLeaf names) (h' : IsLeaf names')
    (hne : names ≠ names') : forks (names.map .name) names' = true := by
  cases h with
  | setting h =>
      cases h' with
      | setting => simpa [Settings.forks] using hne
      | template => simpa [Settings.forks] using h
  | template =>
      cases h' with
      | setting h' => simpa [Settings.forks] using Ne.symm h'
      | template => simpa [Settings.forks] using hne

theorem forks_template {name : String} (h : name ≠ templateKey) :
    forks [.name groupKey, .name name] [groupKey, templateKey] = true := by
  simpa [forks] using h

namespace Layers

variable {ls : Layers} {given : List String → Option Layered} {mentioned : Bool}

theorem Holds.congr {given' : List String → Option Layered} {mentioned' : Bool}
    (h : ls.Holds given mentioned) (hgiven : ∀ {names}, IsLeaf names → given names = given' names)
    (hmentioned : mentioned = mentioned') : ls.Holds given' mentioned' :=
  ⟨fun hnames => (h.leaf hnames).trans (hgiven hnames), h.group, hmentioned ▸ h.template⟩

/-- A variable fills its own place and spares the others. -/
theorem Holds.exists_putAt (h : ls.Holds given mentioned) {names : List String}
    (hnames : IsLeaf names) (s : Toml.Scalar) :
    ∃ ls', ls.putAt (.scalar environmentName s) (names.map .name) = .ok ls' ∧
      ls'.Holds (fun place =>
          if names = place then some (.scalar environmentName s) else given place)
        (mentioned || names.take 2 = [groupKey, templateKey]) := by
  let v := Layered.scalar environmentName s
  have hne : names ≠ [] := by cases hnames <;> exact List.cons_ne_nil _ _
  obtain ⟨u, hu⟩ := v.exists_putAt hne (.table none ls)
  let l : Laying := ⟨names.map .name, v, by simpa using hne⟩
  have hput : ls.putAt l.value l.path = .ok u.asTable.2 := by
    rw [putAt, hu]
    rfl
  -- What stands on the way to the place becomes a table, whatever it was before.
  have htable {front back : List String} (hfront : front ≠ []) (hback : back ≠ [])
      (heq : names = front ++ back) : (Layered.table none u.asTable.2).TableAt front := by
    have htable := Layered.tableAt_of_putAt hback (heq ▸ hu)
    rwa [Layered.TableAt, ← get?_asTable hfront] at htable
  refine ⟨_, hput, ⟨fun {place} hplace => ?_, ?_, ?_⟩⟩
  · by_cases heq : names = place
    · subst heq
      obtain ⟨old, hold⟩ := get?_putAt_of_sets (l := l) (Laying.setsFrom_names v names) hput
      rw [if_pos rfl, hold]
      rfl
    · have hspares : l.Spares place := Laying.sparesFrom_scalar (hnames.forks hplace heq)
      rw [if_neg heq, get?_putAt_of_spares hspares hput, h.leaf hplace]
  · cases hnames with
    | setting | template => exact .inr (htable (by simp) (List.cons_ne_nil _ _) rfl)
  · cases hnames with
    | @setting name hname =>
        have hspares : l.Spares [groupKey, templateKey] :=
          Laying.sparesFrom_scalar (forks_template hname)
        have hother : decide ([groupKey, name].take 2 = [groupKey, templateKey]) = false := by
          simp [hname]
        rw [hother, Bool.or_false, Layered.TableAt, ← Layers.get?,
          get?_putAt_of_spares hspares hput]
        exact h.template
    | template name =>
        have hfront : [groupKey, templateKey] ≠ [] := List.cons_ne_nil _ _
        exact .inr ⟨by simp, htable hfront (List.cons_ne_nil name []) rfl⟩

theorem overlayVariable_eq_putAt {name : String} {path : List Step} (text : String)
    (h : variablePath? name = some path) :
    ls.overlayVariable name text = ls.putAt (variableLayered text) path := by
  obtain ⟨key, hkey, rfl⟩ := Option.map_eq_some_iff.mp h
  rw [overlayVariable, hkey]
  rfl

/-- Of several variables for one place the last one counts. -/
theorem Holds.exists_overlayVariables (h : ls.Holds given mentioned) {env : List (String × String)}
    (henv : LeavesOnly env) :
    ∃ ls', ls.overlayVariables env = .ok ls' ∧
      ls'.Holds (fun place => ((variableText? place env).map variableLayered).or (given place))
        (mentioned || variesTemplate env) := by
  -- What the first variable fills counts as given for the others, which may fill it again.
  induction env generalizing ls given mentioned with
  | nil => exact ⟨ls, rfl, h.congr (fun _ => rfl) (Bool.or_false _).symm⟩
  | cons e env ih =>
      obtain ⟨he, henv⟩ := List.forall_mem_cons.mp henv
      rw [overlayVariables, List.foldlM_cons]
      cases hpath : variablePath? e.1 with
      | none =>
          obtain ⟨ls', hls', hholds⟩ := ih h henv
          have hkey : variableKey? e.1 = none := Option.map_eq_none_iff.mp hpath
          refine ⟨ls', ?_, hholds.congr (fun _ => ?_) ?_⟩
          · rw [overlayVariable, hkey]
            exact hls'
          · simp [variableText?, hpath]
          · simp [variesTemplate, hpath]
      | some path =>
          obtain ⟨names, hnames, rfl⟩ := he path hpath
          obtain ⟨ls₁, hput, hholds₁⟩ := h.exists_putAt hnames (variableValue e.2)
          obtain ⟨ls', hls', hholds⟩ := ih hholds₁ henv
          refine ⟨ls', ?_, hholds.congr (fun {place} _ => ?_) ?_⟩
          · rw [overlayVariable_eq_putAt e.2 hpath, variableLayered, hput]
            exact hls'
          · have hsame : names.map Step.name = place.map Step.name ↔ names = place :=
              List.map_inj_right fun _ _ => Step.name.inj
            simp only [variableText?, hpath, Option.some_inj, hsame]
            cases variableText? place env with
            | some text => rfl
            | none =>
                by_cases heq : names = place
                · simp [heq, variableLayered]
                · simp [heq]
          · have htake : (names.map Step.name).take 2 = [.name groupKey, .name templateKey] ↔
                names.take 2 = [groupKey, templateKey] := by
              rw [← List.map_take]
              show _ = [groupKey, templateKey].map Step.name ↔ _
              exact List.map_inj_right fun _ _ => Step.name.inj
            simp [variesTemplate, hpath, htake, Bool.or_assoc]

end Layers

/-! ## What is loaded -/

/-- A file with plain keys in which the groups of settings are tables. -/
structure IsTidy (entries : Toml.Entries) : Prop where
  keys : entries.PlainKeys
  group : ∀ v ∈ entries.get? [groupKey], ∃ form es, v = .table form es
  template : ∀ v ∈ entries.get? [groupKey, templateKey], ∃ form es, v = .table form es

theorem Layers.holds_of_file {entries : Toml.Entries} (htidy : IsTidy entries) {origin : String}
    {ls : Layers} (h : ∀ names, names ≠ [] → ls.get? names = (entries.get? names).map (.laid origin)) :
    ls.Holds (fun place => (entries.get? place).map (.laid origin))
      (entries.get? [groupKey, templateKey]).isSome := by
  have htable {names : List String} (hnames : names ≠ [])
      (hform : ∀ v ∈ entries.get? names, ∃ form es, v = .table form es) :
      ((entries.get? names).isSome = false ∧ ls.get? names = none) ∨
        ((entries.get? names).isSome = true ∧ (Layered.table none ls).TableAt names) := by
    have hget := h names hnames
    cases hentry : entries.get? names with
    | none => exact .inl ⟨rfl, by rw [hget, hentry]; rfl⟩
    | some v =>
        obtain ⟨form, es, rfl⟩ := hform v hentry
        obtain ⟨origin', es', hlaid⟩ := Layered.exists_laid_eq_table origin form es
        rw [hentry, Option.map_some, hlaid] at hget
        exact .inr ⟨rfl, origin', es', hget⟩
  refine ⟨fun hplace => h _ ?_, ?_, htable (by simp) htidy.template⟩
  · cases hplace <;> exact List.cons_ne_nil _ _
  · exact (htable (by simp) htidy.group).imp And.right And.right

/-- Settings are read from layers that hold what the variables and the file say. -/
theorem exists_layers_of_load {others : OtherFormats} {fs : FileSystem} {env : List (String × String)}
    {name : String} {entries : Toml.Entries} (hformat : isInOtherFormat fs name = false)
    (hfile : fileEntries? fs name = some entries) (htidy : IsTidy entries) (henv : LeavesOnly env) :
    ∃ ls, loadReading others fs env name = ofLayers ls ∧
      ls.Holds (fun place => (given? entries env place).map (Given.layered (fileOrigin fs name)))
        (mentionsTemplate entries env) := by
  obtain ⟨front, hfront, hget⟩ := exists_tomlLayers hfile htidy.keys
  obtain ⟨ls, hls, hholds⟩ := (Layers.holds_of_file htidy hget).exists_overlayVariables henv
  refine ⟨ls, ?_, hholds.congr (fun {place} _ => ?_) rfl⟩
  · rw [loadReading, fileLayers_eq_tomlLayers hformat, hfront]
    show (front.overlayVariables env >>= ofLayers) = _
    rw [hls]
    rfl
  · rw [given?]
    cases variableText? place env with
    | some text => rfl
    | none =>
        rw [Option.map_none, Option.none_or, Option.map_map]
        rfl

end NetPool.Settings
