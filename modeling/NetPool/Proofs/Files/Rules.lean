import NetPool.Proofs.Files.Content

/-! # Rules

What a file system refuses, and the directory where its paths begin, do not depend on what was done to
its files. What may be done to a file can therefore be told beforehand. -/

namespace NetPool.FileSystem

variable {fs fs' fs'' : FileSystem} {path : String}

/-- The file systems have the same working directory and refuse the same. -/
structure SameRules (fs fs' : FileSystem) : Prop where
  workDir : fs'.workDir = fs.workDir
  refusal : fs'.refusal? = fs.refusal?

theorem SameRules.refl (fs : FileSystem) : SameRules fs fs := ⟨rfl, rfl⟩

theorem SameRules.trans (h : SameRules fs fs') (h' : SameRules fs' fs'') : SameRules fs fs'' :=
  ⟨h'.workDir.trans h.workDir, h'.refusal.trans h.refusal⟩

/-- What is refused is the same, too. -/
theorem SameRules.refusal?_placeOf (h : SameRules fs fs') (path : String)
    (content? : Option ByteArray) :
    fs'.refusal? (fs'.placeOf path) content? = fs.refusal? (fs.placeOf path) content? := by
  rw [h.refusal, placeOf_eq_of_workDir h.workDir]

theorem SameRules.allows (h : SameRules fs fs') {content? : Option ByteArray}
    (hallowed : fs.Allows path content?) : fs'.Allows path content? :=
  (h.refusal?_placeOf path content?).trans hallowed

theorem sameRules_makeParents (fs : FileSystem) (path : String) :
    SameRules fs (fs.makeParents path).2 :=
  ⟨(makeParents_kept fs path).1, refusal?_makeParents fs path⟩

theorem sameRules_openOrCreate {q : List String} {id : FileId}
    (h : fs.openOrCreate path = .ok (q, id, fs')) : SameRules fs fs' := by
  cases opens_of_openOrCreate h with
  | existing _ _ => exact .refl fs
  | new _ _ => exact ⟨rfl, rfl⟩

theorem sameRules_write {content : ByteArray} (h : fs.write path content = .ok fs') :
    SameRules fs fs' := by
  obtain ⟨_, _, _, hopen, rfl⟩ := exists_opened_of_write h
  exact (sameRules_openOrCreate hopen).trans ⟨rfl, rfl⟩

theorem sameRules_removeIfPresent (h : fs.removeIfPresent path = .ok fs') : SameRules fs fs' := by
  rcases look_of_removeIfPresent h with ⟨_, rfl⟩ | ⟨_, _, _, rfl⟩
  · exact .refl fs'
  · exact ⟨rfl, rfl⟩

end NetPool.FileSystem
