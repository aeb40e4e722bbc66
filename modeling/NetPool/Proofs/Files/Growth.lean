import NetPool.Proofs.Files.Confined
import NetPool.Proofs.Files.Numbering

/-! # Growth

Opening a file, with the directories above it, adds what is missing and leaves all the rest. Nothing is
added for a path that names a file. -/

namespace NetPool.FileSystem

open NetPool.Path

variable {fs fs' fs'' : FileSystem} {path : String} {content : ByteArray} {id : FileId}

/-- Whatever there was is there as before. What is new are directories that the path enters, and an
empty file in its place. -/
structure Adds (path : String) (fs fs' : FileSystem) : Prop where
  workDir : fs'.workDir = fs.workDir
  stays : ∀ q node, fs.node? q = some node → fs'.node? q = some node
  new : ∀ q node, fs.node? q = none → fs'.node? q = some node →
    (q ∈ fs.routeOf path ∧ node = .directory) ∨
      (q = fs.placeOf path ∧ ∃ id, node = .file id .empty)

theorem Adds.refl (path : String) (fs : FileSystem) : Adds path fs fs := by
  refine ⟨rfl, fun q node h => h, fun q node hnone hsome => ?_⟩
  rw [hnone] at hsome
  cases hsome

theorem Adds.trans (h : Adds path fs fs') (h' : Adds path fs' fs'') : Adds path fs fs'' := by
  refine ⟨h'.workDir.trans h.workDir, fun q node hnode => h'.stays q node (h.stays q node hnode),
    fun q node hnone hsome => ?_⟩
  cases hbetween : fs'.node? q with
  | none =>
      have hnew := h'.new q node hbetween hsome
      rwa [routeOf_eq_of_workDir h.workDir, placeOf_eq_of_workDir h.workDir] at hnew
  | some node' =>
      rw [h'.stays q node' hbetween] at hsome
      exact Option.some.inj hsome ▸ h.new q node' hnone hbetween

theorem adds_makeParents (fs : FileSystem) (path : String) :
    Adds path fs (fs.makeParents path).2 := by
  obtain ⟨hdir, hkept, hframe⟩ := makeParents_kept fs path
  refine ⟨hdir, fun q node hnode => ?_, fun q node hnone hsome => .inl ⟨?_, ?_⟩⟩
  · rcases hkept q with heq | ⟨hnone, _⟩
    · rw [heq, hnode]
    · rw [hnone] at hnode
      cases hnode
  · by_cases hq : q ∈ route (fs.start (.ofText path)) (Path.ofText path).parts.dropLast
    · exact mem_routeOf_of_dropLast hq
    · rw [hframe q hq, hnone] at hsome
      cases hsome
  · rcases hkept q with heq | ⟨_, hmade⟩
    · rw [heq, hnone] at hsome
      cases hsome
    · rw [hmade] at hsome
      exact (Option.some.inj hsome).symm

theorem adds_openOrCreate {q : List String} (h : fs.openOrCreate path = .ok (q, id, fs')) :
    Adds path fs fs' := by
  cases opens_of_openOrCreate h with
  | existing _ _ => exact .refl path fs
  | new _ hvacant =>
      refine ⟨rfl, fun q node hnode => ?_, fun q node hnone hsome => .inr ?_⟩
      · rw [node?_created, if_neg, hnode]
        rintro rfl
        rw [hvacant] at hnode
        cases hnode
      · rw [node?_created] at hsome
        split at hsome
        · rename_i hplace
          exact ⟨hplace, _, (Option.some.inj hsome).symm⟩
        · rw [hnone] at hsome
          cases hsome

/-! ## Paths that name a file -/

/-- Whatever is added for another path, a path keeps naming its file. -/
theorem Adds.look {other : String} (h : Adds other fs fs')
    (hlook : fs.look path = .ok (.file id content)) : fs'.look path = .ok (.file id content) := by
  obtain ⟨dirs, name, hslot, hopen, hnode⟩ := slot_of_look hlook
  refine look_spared hlook ⟨h.workDir, (h.stays _ _ hnode).trans hnode.symm, fun q hq => .inl ?_⟩
  rw [routeOf, hslot.parts, route_concat _ _ hslot.named, ← hslot.placeOf_eq] at hq
  rcases List.mem_append.mp hq with hq | hq
  · rw [directory_of_follow hopen hq, h.stays _ _ (directory_of_follow hopen hq)]
  · rw [List.mem_singleton.mp hq, hnode, h.stays _ _ hnode]

theorem makeParents_of_open {dirs : List String} {name : String} {content? : Option ByteArray}
    (hslot : Slot fs path dirs name content?) (hopen : Open fs path dirs) :
    (fs.makeParents path).2 = fs := by
  obtain ⟨_, hkept, hframe⟩ := makeParents_kept fs path
  rw [hslot.parts, List.dropLast_concat] at hframe
  have hnode : (fs.makeParents path).2.node? = fs.node? := by
    funext q
    by_cases hq : q ∈ route (fs.start (.ofText path)) dirs
    · rcases hkept q with heq | ⟨hnone, _⟩
      · exact heq
      · rw [directory_of_follow hopen hq] at hnone
        cases hnone
    · exact hframe q hq
  obtain ⟨node?, heq⟩ := differsInNodes_makeParents fs path
  rw [heq] at hnode ⊢
  rw [show node? = fs.node? from hnode]

/-- No directory is missing above a file that a path names. -/
theorem makeParents_of_fileId (h : fs.fileId path = .ok id) : (fs.makeParents path).2 = fs := by
  obtain ⟨content, hlook⟩ := look_of_fileId h
  obtain ⟨dirs, name, hslot, hopen, _⟩ := slot_of_look hlook
  exact makeParents_of_open hslot hopen

theorem bytes?_of_fileId (h : fs.fileId path = .ok id) : ∃ content, fs.bytes? path = some content := by
  obtain ⟨content, hlook⟩ := look_of_fileId h
  refine ⟨content, bytes?_eq_some.mpr ?_⟩
  rw [FileSystem.read, hlook]

/-- Making the directories above a plain path does not make it name another file. -/
theorem fileId_makeParents_of_plain (hplain : Plain path) (hrooted : fs.Rooted) :
    (fs.makeParents path).2.fileId path = .ok id ↔ fs.fileId path = .ok id := by
  constructor
  · intro h
    obtain ⟨content, hbytes⟩ := bytes?_of_fileId h
    rw [bytes?_makeParents hplain hrooted] at hbytes
    obtain ⟨id', hlook⟩ := look_of_read (bytes?_eq_some.mp hbytes)
    rwa [makeParents_of_fileId (fileId_of_look hlook)] at h
  · intro h
    rw [makeParents_of_fileId h, h]

end NetPool.FileSystem
