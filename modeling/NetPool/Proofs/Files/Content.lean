import NetPool.Proofs.Files.Slot

/-! # Contents

A file that was opened is the one that its path names from then on. What was written to a path is
read back from it, and nothing is read after it was removed. A path that can be read can be written
and removed, unless that is refused. -/

namespace NetPool.FileSystem

open NetPool.Path

variable {fs fs' : FileSystem} {path : String} {content : ByteArray} {id : FileId}

/-! ## Paths that lead to an entry -/

theorem placeOf_of_locate {q : List String} {ending : PathEnding}
    (h : fs.locate path = .ok (.entry q ending)) : q = fs.placeOf path := by
  rw [FileSystem.locate] at h
  split at h
  · cases h
  · rcases List.eq_nil_or_concat (Path.ofText path).parts with hparts | ⟨dirs, name, hparts⟩
    · simp [locatePath, hparts] at h
    · rw [List.concat_eq_append] at hparts
      rw [locatePath_concat fs hparts] at h
      split at h
      · cases hfollow : fs.follow (fs.start (.ofText path)) (Path.ofText path).parts with
        | error e => rw [hfollow] at h; cases h
        | ok there => rw [hfollow] at h; cases h
      · rename_i hup
        split at h
        · cases h
        · rename_i there hfollow
          obtain rfl := eq_reach_of_follow hfollow
          split at h
          · cases h
          · cases h
            rw [placeOf, hparts, reach_concat _ _ hup]

theorem follow_of_locate {q : List String} {ending : PathEnding}
    (h : fs.locate path = .ok (.entry q ending)) :
    fs.follow (fs.start (.ofText path)) (Path.ofText path).parts.dropLast =
      .ok (reach (fs.start (.ofText path)) (Path.ofText path).parts.dropLast) := by
  rw [FileSystem.locate] at h
  split at h
  · cases h
  · rcases List.eq_nil_or_concat (Path.ofText path).parts with hparts | ⟨dirs, name, hparts⟩
    · rw [hparts]
      rfl
    · rw [List.concat_eq_append] at hparts
      rw [locatePath_concat fs hparts] at h
      rw [hparts, List.dropLast_concat]
      split at h
      · rename_i hup
        rw [hparts, hup, follow_concat_up] at h
        cases hfollow : fs.follow (fs.start (.ofText path)) dirs with
        | error e => rw [hfollow] at h; cases h
        | ok there => rw [hfollow] at h; cases h
      · split at h
        · cases h
        · rename_i there hfollow
          rw [hfollow, eq_reach_of_follow hfollow]

theorem slot_of_locate {q : List String} {ending : PathEnding}
    (h : fs.locate path = .ok (.entry q ending))
    (hread : ∀ e, fs.read path = .error e → e = .notFound) :
    ∃ dirs name content?, Slot fs path dirs name content? ∧ Open fs path dirs := by
  have hfault : textFault? path = none := by
    rw [FileSystem.locate] at h
    split at h
    · cases h
    · assumption
  exact exists_slot_of_read hfault hread (.inl (follow_of_locate h))

/-! ## Files that a path names -/

/-- What a path names fills an open slot. -/
theorem slot_of_look (h : fs.look path = .ok (.file id content)) :
    ∃ dirs name, Slot fs path dirs name (some content) ∧ Open fs path dirs ∧
      fs.node? (fs.placeOf path) = some (.file id content) := by
  have hread : fs.read path = .ok content := by rw [FileSystem.read, h]
  rw [look] at h
  split at h
  · cases h
  · cases h
  · rename_i q ending hlocate
    obtain ⟨dirs, name, content?, hslot, hopen⟩ := slot_of_locate hlocate fun e he => by
      rw [hread] at he
      cases he
    obtain rfl := placeOf_of_locate hlocate
    have hcontent := hslot.read hopen
    rw [hread] at hcontent
    cases content? with
    | none => cases hcontent
    | some old =>
        cases hcontent
        refine ⟨dirs, name, hslot, hopen, ?_⟩
        split at h
        · cases h
        · cases h
        · rename_i hnode
          split at h
          · cases h
            exact hnode
          · cases h

theorem look_of_slot {dirs : List String} {name : String}
    (h : Slot fs path dirs name (some content)) (hopen : Open fs path dirs)
    (hnode : fs.node? (fs.placeOf path) = some (.file id content)) :
    fs.look path = .ok (.file id content) := by
  rw [look, h.locate hopen]
  simp [hnode, (h.filled content rfl).1]

theorem look_of_fileId (h : fs.fileId path = .ok id) :
    ∃ content, fs.look path = .ok (.file id content) := by
  rw [fileId] at h
  split at h
  · cases h
  · cases h
  · rename_i content hlook
    cases h
    exact ⟨content, hlook⟩

theorem node?_of_fileId (h : fs.fileId path = .ok id) :
    ∃ content, fs.node? (fs.placeOf path) = some (.file id content) := by
  obtain ⟨content, hlook⟩ := look_of_fileId h
  obtain ⟨_, _, _, _, hnode⟩ := slot_of_look hlook
  exact ⟨content, hnode⟩

theorem look_of_read (h : fs.read path = .ok content) :
    ∃ id, fs.look path = .ok (.file id content) := by
  rw [FileSystem.read] at h
  split at h
  · cases h
  · cases h
  · rename_i id _ hlook
    cases h
    exact ⟨id, hlook⟩

theorem fileId_of_look (h : fs.look path = .ok (.file id content)) : fs.fileId path = .ok id := by
  rw [fileId, h]

/-- Whoever spares a path leaves the file that it names. -/
theorem look_spared (h : fs.look path = .ok (.file id content)) (hspares : Spares path fs fs') :
    fs'.look path = .ok (.file id content) := by
  obtain ⟨dirs, name, hslot, hopen, hnode⟩ := slot_of_look h
  refine look_of_slot (hslot.spared hspares) (hopen.spared hslot hspares) ?_
  rw [placeOf_eq_of_workDir hspares.workDir, hspares.place, hnode]

/-- Above a file that a path names, there are no directories to be made. -/
theorem look_makeParents (h : fs.look path = .ok (.file id content)) :
    (fs.makeParents path).1 = .ok () ∧
      (fs.makeParents path).2.look path = .ok (.file id content) := by
  obtain ⟨dirs, name, hslot, hopen, hnode⟩ := slot_of_look h
  obtain ⟨hmade, hspares, _⟩ := hslot.makeParents
  exact ⟨hmade, look_spared h hspares⟩

/-! ## Opening -/

/-- What opening a file has come to: the file that is there, or a new one where nothing is. -/
inductive Opens (fs : FileSystem) (path : String) : List String × FileId × FileSystem → Prop
  | existing {id : FileId} {content : ByteArray}
      (hlocate : fs.locate path = .ok (.entry (fs.placeOf path) .plain))
      (hnode : fs.node? (fs.placeOf path) = some (.file id content)) :
      Opens fs path (fs.placeOf path, id, fs)
  | new (hlocate : fs.locate path = .ok (.entry (fs.placeOf path) .plain))
      (hnode : fs.node? (fs.placeOf path) = none) :
      Opens fs path (fs.placeOf path, fs.nextId, fs.created (fs.placeOf path))

theorem opens_of_openOrCreate {opened : List String × FileId × FileSystem}
    (h : fs.openOrCreate path = .ok opened) : Opens fs path opened := by
  cases hlocate : fs.locate path with
  | error e =>
      rw [openOrCreate, hlocate] at h
      cases h
  | ok place =>
      cases place with
      | directory names =>
          rw [openOrCreate, hlocate] at h
          cases h
      | entry q ending =>
          obtain rfl := placeOf_of_locate hlocate
          by_cases hplain : ending = .plain
          · subst hplain
            rw [openOrCreate_of_entry hlocate] at h
            rcases hnode : fs.node? (fs.placeOf path) with _ | _ | ⟨id, content⟩
            · rw [hnode] at h
              cases h
              exact .new hlocate hnode
            · rw [hnode] at h
              cases h
            · rw [hnode] at h
              cases h
              exact .existing hlocate hnode
          · obtain ⟨e, herror⟩ := openOrCreate_of_not_plain hlocate hplain
            rw [herror] at h
            cases h

theorem openOrCreate_of_look (h : fs.look path = .ok (.file id content)) :
    fs.openOrCreate path = .ok (fs.placeOf path, id, fs) := by
  obtain ⟨dirs, name, hslot, hopen, hnode⟩ := slot_of_look h
  have hlocate := hslot.locate hopen
  rw [(hslot.filled content rfl).1] at hlocate
  rw [openOrCreate_of_entry hlocate, hnode]

/-- A file is opened in an open slot only. -/
theorem slot_of_openOrCreate {q : List String} (h : fs.openOrCreate path = .ok (q, id, fs')) :
    (Path.ofText path).ending = .plain ∧
      ∃ dirs name content?, Slot fs path dirs name content? ∧ Open fs path dirs := by
  have hentry : ∃ q, fs.locate path = .ok (.entry q .plain) ∧ fs.node? q ≠ some .directory := by
    cases opens_of_openOrCreate h with
    | existing hlocate hnode => exact ⟨_, hlocate, by rw [hnode]; nofun⟩
    | new hlocate hnode => exact ⟨_, hlocate, by rw [hnode]; nofun⟩
  obtain ⟨q, hlocate, hnode⟩ := hentry
  obtain ⟨dirs, name, content?, hslot, hopen⟩ := slot_of_locate hlocate fun e he => by
    rw [FileSystem.read, look, hlocate] at he
    rcases hq : fs.node? q with _ | _ | ⟨id, content⟩
    · simpa [hq] using he.symm
    · exact absurd hq hnode
    · simp [hq] at he
  rw [hslot.locate hopen] at hlocate
  exact ⟨(Place.entry.inj (Except.ok.inj hlocate)).2, dirs, name, content?, hslot, hopen⟩

/-- The file that was opened is the one that the path names from then on. -/
theorem fileId_of_openOrCreate {q : List String} (h : fs.openOrCreate path = .ok (q, id, fs')) :
    fs'.fileId path = .ok id := by
  obtain ⟨hplain, dirs, name, content?, hslot, hopen⟩ := slot_of_openOrCreate h
  cases opens_of_openOrCreate h with
  | existing hlocate hnode => simp [fileId, look, hlocate, hnode]
  | new hlocate hnode =>
      obtain rfl : content? = none := by
        cases content? with
        | none => rfl
        | some old =>
            obtain ⟨_, id, hfile⟩ := hslot.filled old rfl
            rw [hnode] at hfile
            cases hfile
      obtain ⟨hslot', hopen'⟩ := hslot.created hopen hplain
      refine fileId_of_look (look_of_slot hslot' hopen' ?_)
      exact if_pos rfl

/-! ## Reading what was written -/

theorem read_of_write (h : fs.write path content = .ok fs') : fs'.read path = .ok content := by
  cases hopened : fs.openOrCreate path with
  | error e =>
      rw [FileSystem.write, hopened] at h
      cases h
  | ok opened =>
      obtain ⟨_, dirs, name, content?, hslot, hopen⟩ := slot_of_openOrCreate hopened
      obtain ⟨hslot', hopen'⟩ := hslot.write hopen h
      exact hslot'.read hopen'

/-- A path that can be read can be written unless that is refused. -/
theorem exists_write_of_read (h : fs.read path = .ok content) {new : ByteArray}
    (hallowed : fs.Allows path (some new)) : ∃ fs', fs.write path new = .ok fs' := by
  obtain ⟨id, hlook⟩ := look_of_read h
  rw [Allows] at hallowed
  rw [FileSystem.write, openOrCreate_of_look hlook]
  simp only [hallowed]
  exact ⟨_, rfl⟩

theorem read_makeParents (h : fs.read path = .ok content) :
    (fs.makeParents path).1 = .ok () ∧ (fs.makeParents path).2.read path = .ok content := by
  obtain ⟨id, hlook⟩ := look_of_read h
  obtain ⟨hmade, hlook'⟩ := look_makeParents hlook
  exact ⟨hmade, by rw [FileSystem.read, hlook']⟩

/-! ## Removing -/

/-- Removing a path is refused, or the path is removed if it names a file. -/
theorem remove_cases (fs : FileSystem) (path : String) :
    (∃ r, fs.refusal? (fs.placeOf path) none = some r ∧ fs.remove path = .error r.error) ∨
      fs.remove path =
        match fs.look path with
        | .error e => .error e
        | .ok .directory => .error .isDirectory
        | .ok (.file ..) => .ok (fs.set (fs.placeOf path) none) := by
  rw [remove, look]
  cases hlocate : fs.locate path with
  | error e => exact .inr rfl
  | ok place =>
      cases place with
      | directory names => exact .inr rfl
      | entry q ending =>
          obtain rfl := placeOf_of_locate hlocate
          cases hrefusal : fs.refusal? (fs.placeOf path) none with
          | some r => exact .inl ⟨r, rfl, by simp [hrefusal]⟩
          | none =>
              right
              rcases hnode : fs.node? (fs.placeOf path) with _ | _ | ⟨id, content⟩
              · simp [hrefusal, hnode]
              · simp [hrefusal, hnode]
              · by_cases hplain : ending = .plain
                · simp [hrefusal, hnode, hplain]
                · simp [hrefusal, hnode, hplain]

theorem remove_eq (hallowed : fs.Allows path none) :
    fs.remove path =
      match fs.look path with
      | .error e => .error e
      | .ok .directory => .error .isDirectory
      | .ok (.file ..) => .ok (fs.set (fs.placeOf path) none) := by
  rcases remove_cases fs path with ⟨r, hrefused, _⟩ | heq
  · cases hallowed.symm.trans hrefused
  · exact heq

theorem removeIfPresent_of_look (h : fs.look path = .ok (.file id content))
    (hallowed : fs.Allows path none) :
    fs.removeIfPresent path = .ok (fs.set (fs.placeOf path) none) := by
  rw [removeIfPresent, remove_eq hallowed, h]

theorem removeIfPresent_of_refused {r : Refusal} (h : fs.look path = .ok (.file id content))
    (hrefused : fs.refusal? (fs.placeOf path) none = some r) :
    fs.removeIfPresent path = .error r.error := by
  obtain ⟨dirs, name, hslot, hopen, _⟩ := slot_of_look h
  exact hslot.removeIfPresent_of_refused hopen hrefused

theorem removeIfPresent_of_not_found (h : fs.read path = .error .notFound)
    (hallowed : fs.Allows path none) : fs.removeIfPresent path = .ok fs := by
  have hlook : fs.look path = .error .notFound := by
    rw [FileSystem.read] at h
    split at h
    · rename_i heq
      cases h
      exact heq
    · cases h
    · cases h
  rw [removeIfPresent, remove_eq hallowed, hlook]

/-- What removing has come to: a file is gone, or none was there. -/
theorem look_of_removeIfPresent (h : fs.removeIfPresent path = .ok fs') :
    (fs.look path = .error .notFound ∧ fs' = fs) ∨
      ∃ id content, fs.look path = .ok (.file id content) ∧ fs' = fs.set (fs.placeOf path) none := by
  rw [removeIfPresent] at h
  rcases remove_cases fs path with ⟨r, _, hremove⟩ | hremove
  · rw [hremove] at h
    cases r <;> cases h
  · rw [hremove] at h
    rcases hlook : fs.look path with e | _ | ⟨id, content⟩
    · rw [hlook] at h
      cases e with
      | notFound => exact .inl ⟨rfl, (Except.ok.inj h).symm⟩
      | _ => cases h
    · rw [hlook] at h
      cases h
    · rw [hlook] at h
      exact .inr ⟨id, content, rfl, (Except.ok.inj h).symm⟩

/-- Nothing is read where a file was removed. -/
theorem read_of_removeIfPresent (h : fs.removeIfPresent path = .ok fs') :
    fs'.read path = .error .notFound := by
  rcases look_of_removeIfPresent h with ⟨hlook, rfl⟩ | ⟨id, content, hlook, rfl⟩
  · rw [FileSystem.read, hlook]
  · obtain ⟨dirs, name, hslot, hopen, _⟩ := slot_of_look hlook
    have hvacant := hslot.set none none (fun _ => rfl) fun _ hsome => by cases hsome
    exact hvacant.read (Open.set hslot hopen none)

/-! ## Working directories -/

theorem workDir_of_openOrCreate {q : List String} (h : fs.openOrCreate path = .ok (q, id, fs')) :
    fs'.workDir = fs.workDir := by
  cases opens_of_openOrCreate h with
  | existing _ _ => rfl
  | new _ _ => rfl

theorem placeOf_of_openOrCreate {q : List String} (h : fs.openOrCreate path = .ok (q, id, fs')) :
    fs'.placeOf path = q := by
  rw [placeOf_eq_of_workDir (workDir_of_openOrCreate h)]
  cases opens_of_openOrCreate h with
  | existing _ _ => rfl
  | new _ _ => rfl

end NetPool.FileSystem
