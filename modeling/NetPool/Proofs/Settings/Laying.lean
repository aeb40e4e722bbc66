import NetPool.Settings.Load

/-! # What the layers hold at a path

Sources lay values one after the other. What is found under the names of a path at the end comes
from the last laying that reaches it, if the later ones spare it. -/

namespace NetPool.Settings

theorem bind_eq_ok {α β : Type} {x : Except Fault α} {f : α → Except Fault β} {b : β} :
    (x >>= f) = .ok b ↔ ∃ a, x = .ok a ∧ f a = .ok b := by
  cases x <;> simp [bind, Except.bind]

/-- The name under which an entry of a table is laid. -/
def entryName (key : String) : String := String.ofList (lower key.toList)

theorem lookup_cons {α : Type} (name key : String) (a : α) (es : List (String × α)) :
    List.lookup name ((key, a) :: es) = if name = key then some a else es.lookup name := by
  by_cases h : name = key
  · simp [h]
  · simp [List.lookup_cons, h, beq_false_of_ne h]

theorem Layers.lookup_replace (key name : String) (v : Layered) (ls : Layers) :
    (ls.replace key v).lookup name = if name = key then some v else ls.lookup name := by
  induction ls with
  | nil => rw [Layers.replace, lookup_cons]
  | cons l ls ih =>
      obtain ⟨first, u⟩ := l
      by_cases hfirst : first = key
      · rw [Layers.replace, if_pos hfirst, lookup_cons, lookup_cons, hfirst]
        split <;> rfl
      · rw [Layers.replace, if_neg hfirst, lookup_cons, lookup_cons, ih]
        by_cases h : name = first
        · simp [h, hfirst]
        · simp [h]

namespace Layered

/-- What is found under the names of a path. -/
def get? : (names : List String) → Layered → Option Layered
  | [], v => some v
  | name :: names, v => (v.asTable.2.lookup name).bind (get? names)

/-- What is there after `v` has been laid over `old`, if there was anything. -/
def laidOver (v : Layered) (old : Option Layered) : Layered :=
  match v with
  | .table _ entries => merge entries (old.getD (.table none []))
  | v => v

theorem put_eq_replace (name : String) (v : Layered) (ls : Layers) :
    Layers.put name v ls = ls.replace name (v.laidOver (ls.lookup name)) := by
  cases v <;> simp [Layers.put, laidOver]

theorem get?_replace (origin : Option String) (key : String) (v : Layered) (ls : Layers)
    (name : String) (names : List String) :
    get? (name :: names) (.table origin (ls.replace key v)) =
      if name = key then v.get? names else (ls.lookup name).bind (get? names) := by
  simp only [get?, asTable, Layers.lookup_replace]
  split <;> rfl

theorem get?_put (origin : Option String) (key : String) (v : Layered) (ls : Layers) (name : String)
    (names : List String) :
    get? (name :: names) (.table origin (Layers.put key v ls)) =
      if name = key then (v.laidOver (ls.lookup key)).get? names
      else (ls.lookup name).bind (get? names) := by
  rw [put_eq_replace, get?_replace]

/-! ## Values laid over others -/

/-- Laying the value leaves what is found under the names of the path. -/
def Spares : (names : List String) → Layered → Prop
  | name :: names, .table _ entries => ∀ e ∈ entries, entryName e.1 = name → Spares names e.2
  | _, _ => False

/-- Laying the value puts `w` under the names of the path. -/
def Sets (w : Layered) : (names : List String) → Layered → Prop
  | [], v => v = w
  | name :: names, .table _ entries =>
    ∃ before e after, entries = before ++ e :: after ∧ entryName e.1 = name ∧ Sets w names e.2 ∧
      ∀ e' ∈ after, entryName e'.1 = name → Spares names e'.2
  | _ :: _, _ => False

theorem merge_cons (e : String × Layered) (entries : Layers) (u : Layered) :
    merge (e :: entries) u =
      merge entries (.table u.asTable.1 (Layers.put (entryName e.1) e.2 u.asTable.2)) := by
  rw [merge, entryName]

/-- An entry makes a table of what it is laid over. -/
theorem exists_table_of_merge (e : String × Layered) (entries : Layers) (u : Layered) :
    ∃ origin es, merge (e :: entries) u = .table origin es := by
  induction entries generalizing e u with
  | nil => exact ⟨_, _, merge_cons e [] u⟩
  | cons e' entries ih =>
      rw [merge_cons]
      exact ih e' _

theorem get?_merge_of_spares {name : String} {names : List String}
    (hover : ∀ {v : Layered} (old : Option Layered), v.Spares names →
      (v.laidOver old).get? names = old.bind (get? names))
    {entries : Layers} (h : ∀ e ∈ entries, entryName e.1 = name → e.2.Spares names) (u : Layered) :
    (merge entries u).get? (name :: names) = u.get? (name :: names) := by
  induction entries generalizing u with
  | nil => rfl
  | cons e entries ih =>
      rw [List.forall_mem_cons] at h
      rw [merge_cons, ih h.2, get?_put]
      split
      case isTrue hname => rw [hover _ (h.1 hname.symm), ← hname, get?]
      case isFalse => rw [get?]

theorem get?_laidOver_of_spares {names : List String} {v : Layered} (old : Option Layered)
    (h : v.Spares names) : (v.laidOver old).get? names = old.bind (get? names) := by
  induction names generalizing v old with
  | nil => cases v <;> exact h.elim
  | cons name names ih =>
      cases v with
      | table origin entries =>
          rw [laidOver, get?_merge_of_spares ih h]
          cases old <;> rfl
      | scalar | list | gap => exact h.elim

theorem merge_append (front back : Layers) (u : Layered) :
    merge (front ++ back) u = merge back (merge front u) := by
  induction front generalizing u with
  | nil => rfl
  | cons e front ih => rw [List.cons_append, merge_cons, merge_cons, ih]

/-- What is set is there, over what was there before. -/
theorem get?_laidOver_of_sets {w : Layered} {names : List String} {v : Layered}
    (old : Option Layered) (h : Sets w names v) :
    ∃ old', (v.laidOver old).get? names = some (w.laidOver old') := by
  induction names generalizing v old with
  | nil => exact ⟨old, by rw [h, get?]⟩
  | cons name names ih =>
      cases v with
      | table origin entries =>
          obtain ⟨before, e, after, rfl, hname, hsets, hafter⟩ := h
          rw [laidOver, merge_append, merge_cons,
            get?_merge_of_spares (get?_laidOver_of_spares ·) hafter, get?_put, if_pos hname.symm]
          exact ih _ hsets
      | scalar | list | gap => exact h.elim

end Layered

/-! ## Values laid at the ends of paths -/

/-- A value with the path from the outermost table to its place. -/
structure Laying where
  path : List Step
  value : Layered
  nonempty : path ≠ []

namespace Laying

/-- As `Layered.Spares`, of a value at the end of a path. An index makes a list of the table. -/
def SparesFrom (v : Layered) : (path : List Step) → (names : List String) → Prop
  | [], names => v.Spares names
  | .name a :: path, b :: names => a = b → SparesFrom v path names
  | _, _ => False

def SetsFrom (w v : Layered) : (path : List Step) → (names : List String) → Prop
  | [], names => Layered.Sets w names v
  | .name a :: path, b :: names => a = b ∧ SetsFrom w v path names
  | _, _ => False

theorem SparesFrom.ne_nil {v : Layered} {path : List Step} {names : List String}
    (h : SparesFrom v path names) : names ≠ [] := by
  rintro rfl
  cases path with
  | nil => cases v <;> exact h
  | cons step path => cases step <;> exact h

theorem SetsFrom.ne_nil {w v : Layered} {path : List Step} {names : List String}
    (h : SetsFrom w v path names) (hne : path ≠ []) : names ≠ [] := by
  rintro rfl
  cases path with
  | nil => exact hne rfl
  | cons step path => cases step <;> exact h

end Laying

namespace Layered

/-- A name leads to a table, in which only what has that name changes. -/
theorem putAt_name_eq_ok {v : Layered} {a : String} {path : List Step} {u u' : Layered}
    (h : putAt v (.name a :: path) u = .ok u') :
    ∃ placed, u' = .table u.asTable.1 (u.asTable.2.replace a placed) ∧
      (path = [] ∧ placed = v.laidOver (u.asTable.2.lookup a) ∨
        path ≠ [] ∧ putAt v path ((u.asTable.2.lookup a).getD .gap) = .ok placed) := by
  cases path with
  | nil =>
      rw [putAt, put_eq_replace] at h
      exact ⟨_, (Except.ok.inj h).symm, .inl ⟨rfl, rfl⟩⟩
  | cons next path =>
      rw [putAt] at h
      · obtain ⟨placed, hplaced, hu'⟩ := bind_eq_ok.mp h
        exact ⟨placed, (Except.ok.inj hu').symm, .inr ⟨List.cons_ne_nil _ _, hplaced⟩⟩
      · exact List.cons_ne_nil _ _

/-- Nothing is found below a place that was made on the way. -/
theorem get?_getD_gap (old : Option Layered) {names : List String} (h : names ≠ []) :
    (old.getD .gap).get? names = old.bind (get? names) := by
  cases old with
  | some v => rfl
  | none =>
      cases names with
      | nil => exact absurd rfl h
      | cons name names => rfl

theorem get?_putAt_of_spares {v : Layered} {path : List Step} (hne : path ≠ [])
    {names : List String} (h : Laying.SparesFrom v path names) {u u' : Layered}
    (hput : putAt v path u = .ok u') : u'.get? names = u.get? names := by
  induction path generalizing names u u' with
  | nil => exact absurd rfl hne
  | cons step path ih =>
      cases step with
      | index i => cases names <;> exact h.elim
      | name a =>
          cases names with
          | nil => exact h.elim
          | cons b names =>
              obtain ⟨placed, rfl, hplaced⟩ := putAt_name_eq_ok hput
              rw [get?_replace, get?]
              by_cases hname : b = a
              · subst hname
                rw [if_pos rfl]
                rcases hplaced with ⟨rfl, rfl⟩ | ⟨hrest, hplaced⟩
                · exact get?_laidOver_of_spares _ (h rfl)
                · rw [ih hrest (h rfl) hplaced, get?_getD_gap _ (h rfl).ne_nil]
              · rw [if_neg hname]

theorem get?_putAt_of_sets {w v : Layered} {path : List Step}
    (hne : path ≠ []) {names : List String} (h : Laying.SetsFrom w v path names) {u u' : Layered}
    (hput : putAt v path u = .ok u') : ∃ old, u'.get? names = some (w.laidOver old) := by
  induction path generalizing names u u' with
  | nil => exact absurd rfl hne
  | cons step path ih =>
      cases step with
      | index i => cases names <;> exact h.elim
      | name a =>
          cases names with
          | nil => exact h.elim
          | cons b names =>
              obtain ⟨rfl, hsets⟩ := h
              obtain ⟨placed, rfl, hplaced⟩ := putAt_name_eq_ok hput
              rw [get?_replace, if_pos rfl]
              rcases hplaced with ⟨rfl, rfl⟩ | ⟨hrest, hplaced⟩
              · exact get?_laidOver_of_sets _ hsets
              · exact ih hrest hsets hplaced

end Layered

namespace Laying

/-- Laying leaves what is found under the names. -/
def Spares (l : Laying) (names : List String) : Prop := SparesFrom l.value l.path names

/-- Laying puts `w` under the names. -/
def Sets (l : Laying) (names : List String) (w : Layered) : Prop := SetsFrom w l.value l.path names

end Laying

/-- The last one of the layings that does not spare the names puts `w` there. -/
def LastSets (layings : List Laying) (names : List String) (w : Layered) : Prop :=
  ∃ before l after, layings = before ++ l :: after ∧ l.Sets names w ∧ ∀ l' ∈ after, l'.Spares names

namespace Layers

/-- What is found in the outermost table. -/
def get? (names : List String) (ls : Layers) : Option Layered := (Layered.table none ls).get? names

def layAll (layings : List Laying) (ls : Layers) : Except Fault Layers :=
  layings.foldlM (fun ls l => ls.putAt l.value l.path) ls

theorem putAt_eq_ok {v : Layered} {path : List Step} {ls ls' : Layers}
    (h : ls.putAt v path = .ok ls') :
    ∃ u, Layered.putAt v path (.table none ls) = .ok u ∧ ls' = u.asTable.2 := by
  obtain ⟨u, hu, hls'⟩ := bind_eq_ok.mp h
  exact ⟨u, hu, (Except.ok.inj hls').symm⟩

theorem get?_asTable {names : List String} (h : names ≠ []) (u : Layered) :
    get? names u.asTable.2 = u.get? names := by
  cases names with
  | nil => exact absurd rfl h
  | cons name names => rfl

theorem get?_putAt_of_spares {l : Laying} {names : List String} (h : l.Spares names)
    {ls ls' : Layers} (hput : ls.putAt l.value l.path = .ok ls') :
    ls'.get? names = ls.get? names := by
  obtain ⟨u, hu, rfl⟩ := putAt_eq_ok hput
  rw [get?_asTable h.ne_nil]
  exact Layered.get?_putAt_of_spares l.nonempty h hu

theorem get?_putAt_of_sets {l : Laying} {names : List String} {w : Layered} (h : l.Sets names w)
    {ls ls' : Layers} (hput : ls.putAt l.value l.path = .ok ls') :
    ∃ old, ls'.get? names = some (w.laidOver old) := by
  obtain ⟨u, hu, rfl⟩ := putAt_eq_ok hput
  rw [get?_asTable (h.ne_nil l.nonempty)]
  exact Layered.get?_putAt_of_sets l.nonempty h hu

theorem layAll_append (front back : List Laying) (ls : Layers) :
    ls.layAll (front ++ back) = (do (← ls.layAll front).layAll back) := by
  rw [layAll, List.foldlM_append]
  rfl

theorem layAll_cons (l : Laying) (layings : List Laying) (ls : Layers) :
    ls.layAll (l :: layings) = (do (← ls.putAt l.value l.path).layAll layings) := by
  rw [layAll, List.foldlM_cons]
  rfl

theorem get?_layAll_of_spares {layings : List Laying} {names : List String}
    (h : ∀ l ∈ layings, l.Spares names) {ls ls' : Layers} (hlay : ls.layAll layings = .ok ls') :
    ls'.get? names = ls.get? names := by
  induction layings generalizing ls with
  | nil => rw [Except.ok.inj hlay]
  | cons l layings ih =>
      rw [List.forall_mem_cons] at h
      rw [layAll_cons] at hlay
      obtain ⟨ls₁, hput, hrest⟩ := bind_eq_ok.mp hlay
      rw [ih h.2 hrest, get?_putAt_of_spares h.1 hput]

/-- At the end there is what the last laying that reaches the place has put there. -/
theorem get?_layAll_of_lastSets {layings : List Laying} {names : List String} {w : Layered}
    (h : LastSets layings names w) {ls ls' : Layers} (hlay : ls.layAll layings = .ok ls') :
    ∃ old, ls'.get? names = some (w.laidOver old) := by
  obtain ⟨before, l, after, rfl, hsets, hafter⟩ := h
  rw [layAll_append] at hlay
  obtain ⟨ls₁, -, hrest⟩ := bind_eq_ok.mp hlay
  rw [layAll_cons] at hrest
  obtain ⟨ls₂, hput, hrest⟩ := bind_eq_ok.mp hrest
  rw [get?_layAll_of_spares hafter hrest]
  exact get?_putAt_of_sets hsets hput

end Layers

/-! ## The layings of the sources -/

theorem keyPath_ne_nil (key : List Char) : keyPath key ≠ [] := by
  rw [keyPath]
  split
  split <;> exact List.cons_ne_nil _ _

def fileLaying (origin : String) (e : String × Toml.Value) : Laying :=
  ⟨keyPath e.1.toList, .ofValue origin e.2, keyPath_ne_nil _⟩

/-- What a variable lays, if it holds a setting. -/
def variableLaying? (e : String × String) : Option Laying :=
  (variableKey? e.1).map fun key =>
    ⟨keyPath key, .scalar Layers.environmentName (variableValue e.2), keyPath_ne_nil _⟩

theorem overlayFile_eq_layAll (origin : String) (entries : Toml.Entries) (ls : Layers) :
    ls.overlayFile origin entries = ls.layAll (entries.map (fileLaying origin)) := by
  rw [Layers.overlayFile, Layers.layAll, List.foldlM_map]
  rfl

theorem overlayVariables_eq_layAll (env : List (String × String)) (ls : Layers) :
    ls.overlayVariables env = ls.layAll (env.filterMap variableLaying?) := by
  induction env generalizing ls with
  | nil => rfl
  | cons e env ih =>
      have hcons : Layers.overlayVariables (e :: env) ls =
          (do Layers.overlayVariables env (← ls.overlayVariable e.1 e.2)) := by
        rw [Layers.overlayVariables, List.foldlM_cons]
        rfl
      rw [hcons, Layers.overlayVariable, List.filterMap_cons, variableLaying?]
      cases variableKey? e.1 with
      | none => exact ih ls
      | some key =>
          simp only [Option.map_some, Layers.layAll_cons]
          congr 1
          exact funext ih

/-- The layings of the settings file of a name, or `none` if it is not well formed. -/
def fileLayings? (fs : FileSystem) (name : String) : Option (List Laying) :=
  match source? fs name with
  | none => some []
  | some (origin, text) => (Toml.read? text).map (List.map (fileLaying origin))

theorem tomlLayers_eq_layAll (fs : FileSystem) (name : String) :
    tomlLayers fs name =
      match fileLayings? fs name with
      | none => .error .badSyntax
      | some layings => Layers.layAll layings [] := by
  rw [tomlLayers, fileLayings?]
  cases source? fs name with
  | none => rfl
  | some source =>
      obtain ⟨origin, text⟩ := source
      cases hentries : Toml.read? text with
      | none => simp [hentries]
      | some entries => simp [hentries, overlayFile_eq_layAll]

/-- If no file in another format is found, it does not matter how such files would be read. -/
theorem fileLayers_eq_tomlLayers {fs : FileSystem} {name : String}
    (h : isInOtherFormat fs name = false) (others : OtherFormats) :
    fileLayers others fs name = tomlLayers fs name := by
  rw [fileLayers, h]
  rfl

section Load

variable {others : OtherFormats} {fs : FileSystem} {env : List (String × String)} {name : String}
  {s : Settings}

/-- To load settings is to lay what the variables say over what the file says, and to read the
outcome. -/
theorem exists_layAll_of_load (hload : loadReading others fs env name = .ok s) :
    ∃ front ls, fileLayers others fs name = .ok front ∧
      Layers.layAll (env.filterMap variableLaying?) front = .ok ls ∧ ofLayers ls = .ok s := by
  obtain ⟨front, hfront, hrest⟩ := bind_eq_ok.mp hload
  obtain ⟨ls, hlay, hread⟩ := bind_eq_ok.mp hrest
  rw [overlayVariables_eq_layAll] at hlay
  exact ⟨front, ls, hfront, hlay, hread⟩

/-- What a variable was the last to set is what the settings are read from, whatever the file. -/
theorem exists_of_load_of_variables (hload : loadReading others fs env name = .ok s) :
    ∃ ls, ofLayers ls = .ok s ∧ ∀ names w, LastSets (env.filterMap variableLaying?) names w →
      ∃ old, ls.get? names = some (w.laidOver old) := by
  obtain ⟨front, ls, -, hlay, hread⟩ := exists_layAll_of_load hload
  exact ⟨ls, hread, fun names w hset => Layers.get?_layAll_of_lastSets hset hlay⟩

/-- What a setting was last set to is what the settings are read from. -/
theorem exists_of_load_of_lastSets (hformat : isInOtherFormat fs name = false)
    (hload : loadReading others fs env name = .ok s) :
    ∃ layings ls, fileLayings? fs name = some layings ∧ ofLayers ls = .ok s ∧
      ∀ names w, LastSets (layings ++ env.filterMap variableLaying?) names w →
        ∃ old, ls.get? names = some (w.laidOver old) := by
  obtain ⟨front, ls, hfront, hlay, hread⟩ := exists_layAll_of_load hload
  rw [fileLayers_eq_tomlLayers hformat, tomlLayers_eq_layAll] at hfront
  cases hfile : fileLayings? fs name with
  | none =>
      rw [hfile] at hfront
      cases hfront
  | some layings =>
      rw [hfile] at hfront
      have hall : Layers.layAll (layings ++ env.filterMap variableLaying?) [] = .ok ls := by
        rw [Layers.layAll_append]
        exact bind_eq_ok.mpr ⟨front, hfront, hlay⟩
      exact ⟨layings, ls, rfl, hread, fun names w hset => Layers.get?_layAll_of_lastSets hset hall⟩

end Load

end NetPool.Settings
