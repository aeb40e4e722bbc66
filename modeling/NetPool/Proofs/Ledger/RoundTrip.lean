import NetPool.Proofs.Files.Rules
import NetPool.Proofs.Ledger.View

/-! # Storing and loading

Nothing of an entry is lost on the way through the file, and a list without entries comes back from
no file. What a ledger loads to can be stored in its place, and doing that again changes nothing. -/

namespace NetPool.Ledger

open NetPool.Effect NetPool.Action FileSystem

variable {path : String} {es new : List Asset} {w w' : World}

theorem read_of_store (h : (store path es).outcome w = (.ok (), w')) :
    w'.files.read path = readSlot (image? es) := by
  cases es with
  | nil =>
      rw [store, outcome_onFiles] at h
      split at h
      · rename_i hremove
        cases h
        exact read_of_removeIfPresent hremove
      · cases h
  | cons e es =>
      rw [store, outcome_bind, outcome_changingFiles] at h
      cases hmade : (w.files.makeParents path).1 with
      | error e =>
          rw [hmade] at h
          cases h
      | ok u =>
          rw [hmade] at h
          simp only [mapError_ok, outcome_onFiles] at h
          split at h
          · rename_i hwrite
            cases h
            exact read_of_write hwrite
          · cases h

theorem entries_of_outcome_load (h : (load path).outcome w = (.ok es, w')) :
    entries w.files path = .ok es := by
  rw [load, outcome_observe] at h
  exact congrArg Prod.fst h

/-- What is stored is what the ledger lists from then on. -/
theorem entries_of_store (h : (store path es).outcome w = (.ok (), w')) :
    entries w'.files path = .ok es := by
  rw [entries_of_read (read_of_store h), decodeSlot_image?]

/-- A ledger that loads can be replaced if what is stored is not refused, unless entries are to be
added where there is no file. -/
theorem exists_store_of_entries (h : entries w.files path = .ok es) (hnew : es = [] → new = [])
    (hallowed : w.files.Allows path (image? new)) :
    ∃ w', (store path new).outcome w = (.ok (), w') := by
  cases hread : w.files.read path with
  | error e =>
      obtain rfl := eq_notFound_of_entries h hread
      rw [entries, hread] at h
      obtain rfl := hnew (Except.ok.inj h).symm
      rw [store, outcome_onFiles, removeIfPresent_of_not_found hread hallowed]
      exact ⟨_, rfl⟩
  | ok content =>
      cases new with
      | nil =>
          obtain ⟨id, hlook⟩ := look_of_read hread
          rw [store, outcome_onFiles, removeIfPresent_of_look hlook hallowed]
          exact ⟨_, rfl⟩
      | cons e new =>
          obtain ⟨hmade, hread'⟩ := read_makeParents hread
          have hallowed' := (sameRules_makeParents w.files path).allows hallowed
          obtain ⟨files, hwrite⟩ := exists_write_of_read hread' hallowed'
          rw [store, outcome_bind, outcome_changingFiles, hmade]
          simp only [mapError_ok, outcome_onFiles, World.withFiles, hwrite]
          exact ⟨_, rfl⟩

/-- Storing changes nothing in what is refused. -/
theorem sameRules_store (path : String) (es : List Asset) (w : World) :
    SameRules w.files ((store path es).outcome w).2.files := by
  cases es with
  | nil =>
      rw [store, outcome_onFiles]
      split
      · rename_i hremove
        exact sameRules_removeIfPresent hremove
      · exact .refl _
  | cons e es =>
      have hmade := sameRules_makeParents w.files path
      rw [store, outcome_bind, outcome_changingFiles]
      rcases (w.files.makeParents path).1 with _ | _
      · exact hmade
      · simp only [mapError_ok, outcome_onFiles]
        split
        · rename_i hwrite
          exact hmade.trans (sameRules_write hwrite)
        · exact hmade

theorem exists_read_of_entries {e : Asset} (h : entries w.files path = .ok (e :: es)) :
    ∃ content, w.files.read path = .ok content := by
  cases hread : w.files.read path with
  | ok content => exact ⟨content, rfl⟩
  | error fault =>
      obtain rfl := eq_notFound_of_entries h hread
      rw [entries, hread] at h
      cases h

/-- If what a ledger loads to cannot be stored, its file has the content that it had. -/
theorem read_of_store_error {e : Error} (h : entries w.files path = .ok es)
    (hstore : (store path es).outcome w = (.error e, w')) : w'.files.read path = w.files.read path := by
  cases es with
  | nil =>
      rw [store, outcome_onFiles] at hstore
      split at hstore
      · cases hstore
      · cases hstore
        rfl
  | cons a es =>
      obtain ⟨content, hread⟩ := exists_read_of_entries h
      obtain ⟨hmade, hkept⟩ := read_makeParents hread
      rw [store, outcome_bind, outcome_changingFiles, hmade] at hstore
      simp only [mapError_ok, outcome_onFiles] at hstore
      split at hstore
      · cases hstore
      · cases hstore
        exact hkept.trans hread.symm

/-- Storing what a ledger file was written with leaves its content, even if it fails. -/
theorem read_of_store_again (h : (store path es).outcome w = (.ok (), w')) :
    ((store path es).outcome w').2.files.read path = w'.files.read path := by
  rcases hagain : (store path es).outcome w' with ⟨_ | u, w''⟩
  · exact read_of_store_error (entries_of_store h) hagain
  · rw [read_of_store hagain, read_of_store h]

/-- Entries that were stored are loaded again, all of them, in order and without a change, and storing
them once more leaves the content of the file. Entries that were loaded can be stored unless that is
refused, are loaded again, and are stored in the same way from then on. If they cannot be stored, the
file is left as it is and loads to them still. -/
theorem load_store_round_trip (path : String) (es : List Asset) :
    (∀ w w', (store path es).outcome w = (.ok (), w') →
        (load path).outcome w' = (.ok es, w') ∧
          ((store path es).outcome w').2.files.read path = w'.files.read path) ∧
      ∀ w, (load path).outcome w = (.ok es, w) →
        (w.files.Allows path (image? es) →
          ∃ w₁ w₂, (store path es).outcome w = (.ok (), w₁) ∧
            (load path).outcome w₁ = (.ok es, w₁) ∧
            (store path es).outcome w₁ = (.ok (), w₂) ∧
            w₂.files.read path = w₁.files.read path) ∧
        ∀ e w₁, (store path es).outcome w = (.error e, w₁) →
          (load path).outcome w₁ = (.ok es, w₁) ∧ w₁.files.read path = w.files.read path := by
  refine ⟨fun w w' hstore => ?_, fun w hload => ⟨fun hallowed => ?_, fun e w₁ hstore => ?_⟩⟩
  · exact ⟨outcome_load_of_entries (entries_of_store hstore), read_of_store_again hstore⟩
  · obtain ⟨w₁, hstore⟩ := exists_store_of_entries (entries_of_outcome_load hload) id hallowed
    have hentries := entries_of_store hstore
    have hrules := sameRules_store path es w
    rw [hstore] at hrules
    obtain ⟨w₂, hagain⟩ := exists_store_of_entries hentries id (hrules.allows hallowed)
    refine ⟨w₁, w₂, hstore, outcome_load_of_entries hentries, hagain, ?_⟩
    rw [read_of_store hagain, read_of_store hstore]
  · have hentries := entries_of_outcome_load hload
    have hread := read_of_store_error hentries hstore
    exact ⟨outcome_load_of_entries ((entries_of_read_eq hread).trans hentries), hread⟩

/-- An entry that leaves out no way of writing one: host bits, names that have to be escaped, a leap
second with a fraction, the largest process number. -/
def intricate : Asset where
  machineCidr := ⟨⟨0xC0A87F05, by decide⟩, 24, by decide⟩
  machineCidr6 := ⟨⟨1, by decide⟩, 0, by decide⟩
  provisioningCidr := ⟨⟨0, by decide⟩, 32, by decide⟩
  provisioningCidr6 := ⟨⟨0x20010DB8000000000000000000000001, by decide⟩, 127, by decide⟩
  networkIf := "a\"\\/\n\x00\x7f"
  secondaryNetworkIf := "😀 é"
  allocatedAt := some
    ⟨⟨2016, 12, 31⟩, 23 * 60 + 59, 60, 123000000, by decide, by decide, by decide, by decide⟩
  ownerPid := some 0xFFFFFFFF

theorem load_store_round_trip_intricate :
    ∃ w₀ w₁ w₂, (store "ledger" [intricate]).outcome (Session.quiet (.empty [])) = (.ok (), w₀) ∧
      (load "ledger").outcome w₀ = (.ok [intricate], w₀) ∧
      (store "ledger" [intricate]).outcome w₀ = (.ok (), w₁) ∧
      (load "ledger").outcome w₁ = (.ok [intricate], w₁) ∧
      (store "ledger" [intricate]).outcome w₁ = (.ok (), w₂) ∧
      w₂.files.read "ledger" = w₁.files.read "ledger" := by
  obtain ⟨w₀, hstore⟩ : ∃ w₀, (store "ledger" [intricate]).outcome (Session.quiet (.empty [])) =
      (.ok (), w₀) := ⟨_, rfl⟩
  have hrules := sameRules_store "ledger" [intricate] (Session.quiet (.empty []))
  rw [hstore] at hrules
  have hallowed : w₀.files.Allows "ledger" (image? [intricate]) := hrules.allows rfl
  obtain ⟨hstored, hloaded⟩ := load_store_round_trip "ledger" [intricate]
  obtain ⟨hload, _⟩ := hstored _ w₀ hstore
  obtain ⟨w₁, w₂, hagain⟩ := (hloaded w₀ hload).1 hallowed
  exact ⟨w₀, w₁, w₂, hstore, hload, hagain⟩

end NetPool.Ledger
