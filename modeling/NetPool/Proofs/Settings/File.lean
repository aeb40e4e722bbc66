import NetPool.Proofs.Settings.Laying
import NetPool.Proofs.Toml.Keys

/-! # What a settings file says

In a file with plain keys, what the layers hold at a path is what the file says there. -/

namespace NetPool

namespace Toml

/-! ## Places in a file -/

/-- What is said under the names of a path. -/
def Value.get? : (names : List String) → Value → Option Value
  | [], v => some v
  | name :: names, v => (v.entries.lookup name).bind (get? names)

/-- What a document says under the names of a path. -/
def Entries.get? (names : List String) (es : Entries) : Option Value :=
  (Value.table .headed es).get? names

/-- A key that is written without quotes, in small letters. -/
def IsPlainKey (key : String) : Prop :=
  ∀ c ∈ key.toList, isBareKeyChar c = true ∧ c.isUpper = false

instance (key : String) : Decidable (IsPlainKey key) := List.decidableBAll _ key.toList

/-- The keys of the value are plain, if it is a table, and so are those of the tables in it. -/
inductive Value.PlainKeys : Value → Prop where
  | scalar (s : Scalar) : PlainKeys (.scalar s)
  | list (items : List Value) : PlainKeys (.list items)
  | tables (elements : List Entries) : PlainKeys (.tables elements)
  | table {form : TableForm} {entries : Entries} (hkeys : ∀ e ∈ entries, IsPlainKey e.1)
    (hparts : ∀ e ∈ entries, e.2.PlainKeys) : PlainKeys (.table form entries)

/-- A table with plain keys. -/
structure Entries.PlainKeys (es : Entries) : Prop where
  keys : ∀ e ∈ es, IsPlainKey e.1
  parts : ∀ e ∈ es, e.2.PlainKeys

theorem Entries.PlainKeys.of_lookup {es : Entries} {key : String} {v : Value} (h : es.PlainKeys)
    (hlookup : es.lookup key = some v) : v.PlainKeys :=
  h.parts _ (mem_of_lookup hlookup)

theorem Value.PlainKeys.entries {v : Value} (h : v.PlainKeys) : v.entries.PlainKeys := by
  cases h with
  | table hkeys hparts => exact ⟨hkeys, hparts⟩
  | scalar | list | tables => exact ⟨nofun, nofun⟩

end Toml

namespace Settings

/-! ## Plain keys -/

theorem lowerChar_eq_self {c : Char} (hbare : Toml.isBareKeyChar c = true)
    (hsmall : c.isUpper = false) : lowerChar c = c := by
  have hkelvin : c ≠ '\u212a' := by
    rintro rfl
    exact absurd hbare (by decide)
  have hcapital : ¬ ('A' ≤ c ∧ c ≤ 'Z') := of_decide_eq_false hsmall
  rw [lowerChar, if_neg hkelvin]
  exact dif_neg hcapital

theorem lower_eq_self {key : String} (h : Toml.IsPlainKey key) : lower key.toList = key.toList := by
  have hchars : ∀ c ∈ key.toList, lowerChar c = id c := fun c hc =>
    lowerChar_eq_self (h c hc).1 (h c hc).2
  rw [lower, List.map_congr_left hchars, List.map_id]

theorem entryName_eq_self {key : String} (h : Toml.IsPlainKey key) : entryName key = key := by
  rw [entryName, lower_eq_self h, String.ofList_toList]

theorem splitSteps_eq_self {cs : List Char} (h : ∀ c ∈ cs, isStepSign c = false) :
    splitSteps cs = (cs, []) := by
  induction cs with
  | nil => rfl
  | cons c cs ih =>
      obtain ⟨hc, hcs⟩ := List.forall_mem_cons.mp h
      simp [splitSteps, hc, ih hcs]

/-- A plain key is no path. -/
theorem keyPath_eq_name {key : String} (h : Toml.IsPlainKey key) :
    keyPath key.toList = [.name key] := by
  have hsigns : ∀ c ∈ key.toList, isStepSign c = false := by
    intro c hc
    rw [isStepSign, Bool.or_eq_false_iff, decide_eq_false_iff_not, decide_eq_false_iff_not]
    constructor <;> rintro rfl <;> exact absurd (h _ hc).1 (by decide)
  have hname : String.ofList (lower key.toList) = key := entryName_eq_self h
  have hstep : nameStep? key.toList = none ∨ nameStep? key.toList = some (.name key) := by
    rw [nameStep?.eq_def, hname]
    split
    · exact .inr rfl
    · exact .inl rfl
  rw [keyPath, splitSteps_eq_self hsigns, hname]
  rcases hstep with hstep | hstep <;> simp [hstep]

/-! ## Laid values -/

/-- What becomes of a value of the file that is laid where nothing was. -/
def Layered.laid (origin : String) (v : Toml.Value) : Layered := (ofValue origin v).laidOver none

theorem Layered.exists_laid_eq_table (origin : String) (form : Toml.TableForm)
    (es : Toml.Entries) : ∃ origin' es', laid origin (.table form es) = .table origin' es' := by
  cases es with
  | nil => exact ⟨_, _, rfl⟩
  | cons e es =>
      rw [laid, ofValue, ofEntries, laidOver]
      exact exists_table_of_merge _ _ _

/-- Entries with distinct plain keys are laid side by side. -/
theorem Layered.lookup_merge (origin : String) {es : Toml.Entries} (hdistinct : es.Distinct)
    (hplain : es.PlainKeys) (u : Layered) (name : String) :
    (merge (ofEntries origin es) u).asTable.2.lookup name =
      match es.lookup name with
      | some v => some ((ofValue origin v).laidOver (u.asTable.2.lookup name))
      | none => u.asTable.2.lookup name := by
  induction es generalizing u with
  | nil => rfl
  | cons e es ih =>
      obtain ⟨key, v⟩ := e
      obtain ⟨hkey, hkeys⟩ := List.forall_mem_cons.mp hplain.keys
      obtain ⟨hnew, hnodup⟩ := List.nodup_cons.mp hdistinct.keys
      have hes : Toml.Entries.Distinct es := ⟨hnodup, (List.forall_mem_cons.mp hdistinct.parts).2⟩
      have hesplain : Toml.Entries.PlainKeys es := ⟨hkeys, (List.forall_mem_cons.mp hplain.parts).2⟩
      rw [ofEntries, merge_cons, entryName_eq_self hkey, ih hes hesplain, asTable, put_eq_replace,
        Layers.lookup_replace, lookup_cons]
      -- What is laid first stays as it is, since none of the other entries has its key.
      by_cases hname : name = key
      · subst hname
        have hnone : es.lookup name = none := Toml.Entries.lookup_eq_none_iff.mpr hnew
        simp [hnone]
      · simp [hname]

theorem Layered.get?_laid {origin : String} {v : Toml.Value} (hdistinct : v.Distinct)
    (hplain : v.PlainKeys) (names : List String) :
    (laid origin v).get? names = (v.get? names).map (laid origin) := by
  induction names generalizing v with
  | nil => rfl
  | cons name names ih =>
      have hlookup : (laid origin v).asTable.2.lookup name =
          (v.entries.lookup name).map (laid origin) := by
        cases v with
        | table form es =>
            have hmerge := lookup_merge origin hdistinct.entries hplain.entries
              (table none []) name
            rw [Toml.Value.entries] at hmerge ⊢
            rw [laid, ofValue, laidOver, Option.getD_none, hmerge]
            cases es.lookup name <;> rfl
        | scalar | list | tables => rfl
      rw [get?, hlookup, Toml.Value.get?]
      cases hw : v.entries.lookup name with
      | none => rfl
      | some w => exact ih (hdistinct.entries.of_lookup hw) (hplain.entries.of_lookup hw)

/-! ## The file -/

/-- The entries of the settings file of a name, which has none if it is absent; `none` if it is not well
formed. -/
def fileEntries? (fs : FileSystem) (name : String) : Option Toml.Entries :=
  match source? fs name with
  | none => some []
  | some (_, text) => Toml.read? text

/-- The settings file of a name in messages. -/
def fileOrigin (fs : FileSystem) (name : String) : String :=
  match source? fs name with
  | none => ""
  | some (origin, _) => origin

theorem Layers.overlayFile_eq_merge {origin : String} {es : Toml.Entries}
    (hplain : es.PlainKeys) (ls : Layers) :
    ls.overlayFile origin es =
      .ok (Layered.merge (Layered.ofEntries origin es) (.table none ls)).asTable.2 := by
  induction es generalizing ls with
  | nil => rfl
  | cons e es ih =>
      obtain ⟨hkey, hkeys⟩ := List.forall_mem_cons.mp hplain.keys
      have hes : Toml.Entries.PlainKeys es := ⟨hkeys, (List.forall_mem_cons.mp hplain.parts).2⟩
      have hput : ls.putAt (Layered.ofValue origin e.2) (keyPath e.1.toList) =
          .ok (put e.1 (Layered.ofValue origin e.2) ls) := by
        rw [keyPath_eq_name hkey]
        rfl
      rw [overlayFile, List.foldlM_cons, hput]
      show overlayFile origin es _ = _
      rw [ih hes, Layered.ofEntries, Layered.merge_cons, entryName_eq_self hkey]
      rfl

theorem distinct_of_fileEntries? {fs : FileSystem} {name : String} {es : Toml.Entries}
    (h : fileEntries? fs name = some es) : es.Distinct := by
  rw [fileEntries?] at h
  split at h
  · obtain rfl := Option.some.inj h
    exact Toml.Entries.distinct_nil
  · exact Toml.distinct_of_read? h

/-- The layers of a file hold what it says. -/
theorem exists_tomlLayers {fs : FileSystem} {name : String} {es : Toml.Entries}
    (h : fileEntries? fs name = some es) (hplain : es.PlainKeys) :
    ∃ ls, tomlLayers fs name = .ok ls ∧ ∀ names, names ≠ [] →
      ls.get? names = (es.get? names).map (Layered.laid (fileOrigin fs name)) := by
  have hlaid (origin : String) (names : List String) (hnames : names ≠ []) :
      Layers.get? names (Layered.laid origin (.table .headed es)).asTable.2 =
        (es.get? names).map (Layered.laid origin) := by
    rw [Layers.get?_asTable hnames]
    exact Layered.get?_laid ((distinct_of_fileEntries? h).table _)
      (.table hplain.keys hplain.parts) names
  rw [tomlLayers, fileOrigin]
  rw [fileEntries?] at h
  cases hsource : source? fs name with
  | none =>
      rw [hsource] at h
      obtain rfl := Option.some.inj h
      exact ⟨[], rfl, fun names => hlaid "" names⟩
  | some source =>
      obtain ⟨origin, text⟩ := source
      rw [hsource] at h
      simp only at h
      simp only [h]
      exact ⟨_, Layers.overlayFile_eq_merge hplain [], hlaid origin⟩

end Settings
end NetPool
