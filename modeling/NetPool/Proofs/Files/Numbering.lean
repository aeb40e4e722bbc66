import NetPool.Proofs.Files.Content

/-! # Numbers of files

A file keeps its number, and no number is given twice. A file that no place holds any more is gone
for good, even if there is another file of its path. -/

namespace NetPool.FileSystem

variable {fs fs' fs'' : FileSystem} {path : String} {id : FileId}

/-- The file of that number is somewhere. -/
def Linked (fs : FileSystem) (id : FileId) : Prop :=
  ∃ q content, fs.node? q = some (.file id content)

/-- The next file gets a number that no file has. -/
def Numbered (fs : FileSystem) : Prop := ∀ id, fs.Linked id → id < fs.nextId

/-- The files that are somewhere later on were there before, or they are new and so is their
number. -/
structure Later (fs fs' : FileSystem) : Prop where
  nextId : fs.nextId ≤ fs'.nextId
  linked : ∀ id, fs'.Linked id → fs.Linked id ∨ fs.nextId ≤ id ∧ id < fs'.nextId

theorem Later.refl (fs : FileSystem) : Later fs fs := ⟨Nat.le_refl _, fun _ => .inl⟩

theorem Later.trans (h : Later fs fs') (h' : Later fs' fs'') : Later fs fs'' := by
  refine ⟨Nat.le_trans h.nextId h'.nextId, fun id hid => ?_⟩
  rcases h'.linked id hid with hid | ⟨hle, hlt⟩
  · rcases h.linked id hid with hid | ⟨hle, hlt⟩
    · exact .inl hid
    · exact .inr ⟨hle, Nat.lt_of_lt_of_le hlt h'.nextId⟩
  · exact .inr ⟨Nat.le_trans h.nextId hle, hlt⟩

theorem Later.numbered (h : Later fs fs') (hnumbered : fs.Numbered) : fs'.Numbered := by
  intro id hid
  rcases h.linked id hid with hid | ⟨_, hlt⟩
  · exact Nat.lt_of_lt_of_le (hnumbered id hid) h.nextId
  · exact hlt

/-- A file that is nowhere stays nowhere. -/
theorem Later.not_linked (h : Later fs fs') (hlt : id < fs.nextId) (hgone : ¬ fs.Linked id) :
    ¬ fs'.Linked id := by
  intro hid
  rcases h.linked id hid with hid | ⟨hle, _⟩
  · exact hgone hid
  · exact absurd hlt (Nat.not_lt.mpr hle)

theorem linked_of_fileId (h : fs.fileId path = .ok id) : fs.Linked id :=
  ⟨_, node?_of_fileId h⟩

theorem numbered_empty (workDir : List String) : (empty workDir).Numbered := by
  intro id ⟨q, content, hnode⟩
  rw [empty] at hnode
  dsimp only at hnode
  split at hnode
  · cases hnode
  · cases hnode

/-! ## What is done to files -/

theorem later_makeParents (fs : FileSystem) (path : String) : Later fs (fs.makeParents path).2 := by
  obtain ⟨_, hkept, _⟩ := makeParents_kept fs path
  refine ⟨Nat.le_of_eq (nextId_makeParents fs path).symm,
    fun id ⟨q, content, hnode⟩ => .inl ⟨q, content, ?_⟩⟩
  rcases hkept q with heq | ⟨_, hdir⟩
  · rw [← heq, hnode]
  · rw [hdir] at hnode
    cases hnode

theorem later_openOrCreate {q : List String} (h : fs.openOrCreate path = .ok (q, id, fs')) :
    Later fs fs' := by
  cases opens_of_openOrCreate h with
  | existing _ _ => exact .refl fs
  | new _ _ =>
      refine ⟨Nat.le_succ _, fun id ⟨q, content, hnode⟩ => ?_⟩
      rw [node?_created] at hnode
      split at hnode
      · cases hnode
        exact .inr ⟨Nat.le_refl _, Nat.lt_succ_self _⟩
      · exact .inl ⟨q, content, hnode⟩

theorem later_removeIfPresent (h : fs.removeIfPresent path = .ok fs') : Later fs fs' := by
  rcases look_of_removeIfPresent h with ⟨_, rfl⟩ | ⟨_, _, _, rfl⟩
  · exact .refl fs'
  · refine ⟨Nat.le_refl _, fun id ⟨q, content, hnode⟩ => .inl ?_⟩
    rw [node?_set] at hnode
    split at hnode
    · cases hnode
    · exact ⟨q, content, hnode⟩

end NetPool.FileSystem
