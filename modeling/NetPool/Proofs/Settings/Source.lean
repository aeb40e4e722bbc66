import NetPool.Proofs.Settings.Key
import NetPool.Proofs.Text.Bytes

/-! # Sources of settings

A setting is set by the last variable that reaches its place, or by the last thing that the file puts
there, if no variable reaches it. -/

namespace NetPool.Settings

/-! ## Variables -/

/-- The text of the last variable that reaches the names. -/
def SetByVariable (env : List (String × String)) (names : List String) (text : String) : Prop :=
  ∃ before name after, env = before ++ (name, text) :: after ∧
    (variableKey? name).map keyPath = some (names.map .name) ∧
      ∀ l ∈ after.filterMap variableLaying?, l.Spares names

theorem Laying.setsFrom_names (v : Layered) (names : List String) :
    SetsFrom v v (names.map .name) names := by
  induction names with
  | nil => rfl
  | cons name names ih => exact ⟨rfl, ih⟩

theorem SetByVariable.lastSets {env : List (String × String)} {names : List String} {text : String}
    (h : SetByVariable env names text) :
    LastSets (env.filterMap variableLaying?) names
      (.scalar Layers.environmentName (variableValue text)) := by
  obtain ⟨before, name, after, rfl, hpath, hafter⟩ := h
  obtain ⟨key, hkey, hkeyPath⟩ := Option.map_eq_some_iff.mp hpath
  let value := Layered.scalar Layers.environmentName (variableValue text)
  refine ⟨before.filterMap variableLaying?, ⟨keyPath key, value, keyPath_ne_nil key⟩,
    after.filterMap variableLaying?, ?_, ?_, hafter⟩
  · rw [List.filterMap_append, List.filterMap_cons, variableLaying?, hkey]
    rfl
  · show Laying.SetsFrom value value (keyPath key) names
    rw [hkeyPath]
    exact Laying.setsFrom_names value names

/-- The usual name of its variable leads to a setting. -/
theorem Key.keyPath_variableName {κ : Kind} (k : Key κ) :
    (variableKey? k.variableName).map keyPath = some (k.path.map .name) := by
  rw [variableKey?, variableName, String.toList_ofList]
  cases k <;> decide +kernel

theorem Key.setByVariable {κ : Kind} (k : Key κ) (before after : List (String × String))
    (text : String) (hafter : ∀ l ∈ after.filterMap variableLaying?, l.Spares k.path) :
    SetByVariable (before ++ (k.variableName, text) :: after) k.path text :=
  ⟨before, k.variableName, after, rfl, k.keyPath_variableName, hafter⟩

/-- Whether the path and the names take different names somewhere on their way. -/
def forks : (path : List Step) → (names : List String) → Bool
  | .name a :: path, b :: names => a ≠ b || forks path names
  | _, _ => false

/-- A plain value spares what its path does not lead to. -/
theorem Laying.sparesFrom_scalar {origin : String} {v : Toml.Scalar} {path : List Step}
    {names : List String} (h : forks path names = true) :
    SparesFrom (.scalar origin v) path names := by
  induction path generalizing names with
  | nil => cases h
  | cons step path ih =>
      cases step with
      | index i => cases h
      | name a =>
          cases names with
          | nil => cases h
          | cons b names =>
              intro hname
              rw [forks, hname] at h
              exact ih (by simpa using h)

/-- Whether a variable leaves what is found under the names. -/
def variableForks (names : List String) (e : String × String) : Bool :=
  ((variableKey? e.1).map keyPath).all (forks · names)

theorem spares_of_variableForks {env : List (String × String)} {names : List String}
    (h : env.all (variableForks names) = true) :
    ∀ l ∈ env.filterMap variableLaying?, l.Spares names := by
  intro l hl
  obtain ⟨e, he, hlaying⟩ := List.mem_filterMap.mp hl
  obtain ⟨key, hkey, rfl⟩ := Option.map_eq_some_iff.mp hlaying
  have hforks := List.all_eq_true.mp h e he
  rw [variableForks, hkey] at hforks
  exact Laying.sparesFrom_scalar hforks

/-! ## The file -/

/-- The last thing that the file puts under the names. No variable reaches them, and no file in another
format is found that could be taken instead. -/
def SetInFile (fs : FileSystem) (env : List (String × String)) (name : String) (names : List String)
    (v : Toml.Value) : Prop :=
  isInOtherFormat fs name = false ∧
    ∃ origin text entries, source? fs name = some (origin, text) ∧ Toml.read? text = some entries ∧
      LastSets (entries.map (fileLaying origin)) names (.ofValue origin v) ∧
        ∀ l ∈ env.filterMap variableLaying?, l.Spares names

theorem LastSets.append {front back : List Laying} {names : List String} {w : Layered}
    (h : LastSets front names w) (hback : ∀ l ∈ back, l.Spares names) :
    LastSets (front ++ back) names w := by
  obtain ⟨before, l, after, rfl, hsets, hafter⟩ := h
  exact ⟨before, l, after ++ back, by simp, hsets, List.forall_mem_append.mpr ⟨hafter, hback⟩⟩

theorem Layered.ofEntries_eq_map (origin : String) (entries : Toml.Entries) :
    ofEntries origin entries = entries.map fun e => (e.1, ofValue origin e.2) := by
  induction entries with
  | nil => rfl
  | cons e entries ih => rw [ofEntries, List.map_cons, ih]

theorem source?_eq_some {fs : FileSystem} {name text : String} {p : Path}
    (hfile : file? fs name = some p) (hcontent : content? fs p.text = some text.toUTF8) :
    source? fs name = some (originOf fs p, text) := by
  rw [source?, hfile]
  simp only [Option.bind_eq_bind, Option.bind_some, hcontent, Text.fromUTF8?_toUTF8]
  rfl

/-- An entry of the table of settings sets what it names, unless that is named again. -/
theorem setInFile_of_entry {fs : FileSystem} {env : List (String × String)}
    {name origin text setting key : String} {form : Toml.TableForm} {v : Toml.Value}
    (before front back after : Toml.Entries) (hname : entryName key = setting)
    (hformat : isInOtherFormat fs name = false) (hsource : source? fs name = some (origin, text))
    (hread : Toml.read? text =
      some (before ++ (groupKey, .table form (front ++ (key, v) :: back)) :: after))
    (hback : ∀ e ∈ back, entryName e.1 ≠ setting)
    (hafter : ∀ e ∈ after, (fileLaying origin e).Spares [groupKey, setting])
    (henv : ∀ l ∈ env.filterMap variableLaying?, l.Spares [groupKey, setting]) :
    SetInFile fs env name [groupKey, setting] v := by
  have hpath : keyPath groupKey.toList = [.name groupKey] := by decide
  refine ⟨hformat, origin, text, _, hsource, hread, ?_, henv⟩
  rw [List.map_append, List.map_cons]
  refine ⟨_, _, _, rfl, ?_, List.forall_mem_map.mpr hafter⟩
  simp only [Laying.Sets, fileLaying, hpath, Layered.ofValue, Layered.ofEntries_eq_map,
    List.map_append, List.map_cons]
  refine ⟨rfl, _, _, _, rfl, hname, rfl, List.forall_mem_map.mpr fun e he heq => ?_⟩
  exact absurd heq (hback e he)

end NetPool.Settings
