import NetPool.Proofs.Files.Apart

/-! # Confined changes

Where only one file was changed and directories were made, any path apart from that file reads as
before, unless it only failed to be read for want of a directory. -/

namespace NetPool.FileSystem

open NetPool.Path

variable {fs fs' fs'' : FileSystem} {path other : String} {content : ByteArray}

/-- Nothing has changed but the place of a path, and missing places where directories were made. -/
structure Confined (path : String) (fs fs' : FileSystem) : Prop where
  workDir : fs'.workDir = fs.workDir
  kept : ∀ q, q ≠ fs.placeOf path → Kept fs fs' q

theorem Confined.refl (path : String) (fs : FileSystem) : Confined path fs fs :=
  ⟨rfl, fun q _ => .refl fs q⟩

theorem Confined.trans (h : Confined path fs fs') (h' : Confined path fs' fs'') :
    Confined path fs fs'' := by
  refine ⟨h'.workDir.trans h.workDir, fun q hq => (h.kept q hq).trans (h'.kept q ?_)⟩
  rwa [placeOf_eq_of_workDir h.workDir]

/-- Directories that are made for whatever path change no file. -/
theorem confined_makeParents (fs : FileSystem) (path other : String) :
    Confined path fs (fs.makeParents other).2 := by
  obtain ⟨hdir, hkept, _⟩ := makeParents_kept fs other
  exact ⟨hdir, fun q _ => hkept q⟩

theorem confined_openOrCreate {q : List String} {id : FileId}
    (h : fs.openOrCreate path = .ok (q, id, fs')) : Confined path fs fs' := by
  cases opens_of_openOrCreate h with
  | existing _ _ => exact .refl path fs
  | new _ _ =>
      refine ⟨rfl, fun q hq => .inl ?_⟩
      rw [node?_created, if_neg hq]

theorem confined_removeIfPresent (h : fs.removeIfPresent path = .ok fs') :
    Confined path fs fs' := by
  rcases look_of_removeIfPresent h with ⟨_, rfl⟩ | ⟨_, _, _, rfl⟩
  · exact .refl path fs'
  · refine ⟨rfl, fun q hq => .inl ?_⟩
    rw [node?_set, if_neg hq]

/-! ## What other paths read as -/

/-- The content of the file at a path, if there is a file that can be read. -/
def bytes? (fs : FileSystem) (path : String) : Option ByteArray :=
  match fs.read path with
  | .ok content => some content
  | .error _ => none

theorem bytes?_eq_some : fs.bytes? path = some content ↔ fs.read path = .ok content := by
  rw [bytes?]
  cases fs.read path with
  | ok content' => simp
  | error e => simp

/-- Whatever is confined to another place spares the file that a path leads to, if it leads to one
before or after. -/
theorem Confined.spares (h : Confined other fs fs') (hapart : Apart fs other path) {id : FileId}
    (hnode : fs'.node? (fs.placeOf path) = some (.file id content) ∨
      fs.node? (fs.placeOf path) = some (.file id content)) : Spares path fs fs' := by
  have hplace := h.kept (fs.placeOf path) hapart.distinct.symm
  refine ⟨h.workDir, ?_, fun q hq => h.kept q ?_⟩
  · rcases hnode with hnode | hnode
    · rw [hnode, hplace.file.mp hnode]
    · rw [hnode, hplace.file.mpr hnode]
  · rintro rfl
    exact hapart.above hq

theorem Confined.read (h : Confined other fs fs') (hapart : Apart fs other path)
    (hread : fs.read path = .ok content) : fs'.read path = .ok content := by
  obtain ⟨id, hlook⟩ := look_of_read hread
  obtain ⟨_, _, _, _, hnode⟩ := slot_of_look hlook
  rw [FileSystem.read, look_spared hlook (h.spares hapart (.inr hnode))]

/-- What is read after a path was spared was in its slot before. -/
theorem slot_of_spared_read (hread : fs'.read path = .ok content)
    (hspares : ∀ id, fs'.node? (fs'.placeOf path) = some (.file id content) → Spares path fs fs') :
    ∃ dirs name, Slot fs path dirs name (some content) := by
  obtain ⟨id, hlook⟩ := look_of_read hread
  obtain ⟨dirs, name, hslot, _, hnode⟩ := slot_of_look hlook
  exact ⟨dirs, name, hslot.of_spares (hspares id hnode)⟩

/-- What is read afterwards would have been read before, had the directories been there. -/
theorem Confined.read_makeParents (h : Confined other fs fs') (hapart : Apart fs other path)
    (hread : fs'.read path = .ok content) : (fs.makeParents path).2.read path = .ok content := by
  obtain ⟨dirs, name, hslot⟩ := slot_of_spared_read hread fun id hnode => by
    rw [placeOf_eq_of_workDir h.workDir] at hnode
    exact h.spares hapart (.inl hnode)
  obtain ⟨_, hspares, hopen⟩ := hslot.makeParents
  exact (hslot.spared hspares).read hopen

/-- A path reads as before if that does not depend on missing directories. -/
theorem Confined.bytes?_eq (h : Confined other fs fs') (hapart : Apart fs other path)
    (hstable : (fs.makeParents path).2.bytes? path = fs.bytes? path) :
    fs'.bytes? path = fs.bytes? path := by
  cases hbytes : fs.bytes? path with
  | some content =>
      have hread := bytes?_eq_some.mp hbytes
      exact bytes?_eq_some.mpr (h.read hapart hread)
  | none =>
      cases hbytes' : fs'.bytes? path with
      | none => rfl
      | some content =>
          have hread := h.read_makeParents hapart (bytes?_eq_some.mp hbytes')
          rw [hbytes, bytes?_eq_some.mpr hread] at hstable
          cases hstable

/-- What a plain path reads as does not depend on missing directories. -/
theorem bytes?_makeParents (hplain : Plain path) (hrooted : fs.Rooted) :
    (fs.makeParents path).2.bytes? path = fs.bytes? path := by
  obtain ⟨hdir, hkept, _⟩ := makeParents_kept fs path
  cases hbytes : fs.bytes? path with
  | some content => exact bytes?_eq_some.mpr (read_makeParents (bytes?_eq_some.mp hbytes)).2
  | none =>
      cases hbytes' : (fs.makeParents path).2.bytes? path with
      | none => rfl
      | some content =>
          have hread' := bytes?_eq_some.mp hbytes'
          obtain ⟨dirs, name, hslot⟩ := slot_of_spared_read hread' fun id hnode => by
            rw [placeOf_eq_of_workDir hdir] at hnode
            exact ⟨hdir, by rw [hnode, (hkept _).file.mp hnode], fun q _ => hkept q⟩
          by_cases hopen : Open fs path dirs
          · rw [bytes?_eq_some.mpr (hslot.read hopen)] at hbytes
            cases hbytes
          · have hmissing := hslot.read_of_not_open hopen
            rw [hplain.read_makeParents hrooted fun e he => ?_, hmissing] at hread'
            · cases hread'
            · rw [hmissing] at he
              exact (Except.error.inj he).symm

end NetPool.FileSystem
