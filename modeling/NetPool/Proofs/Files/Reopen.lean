import NetPool.Proofs.Files.Apart
import NetPool.Proofs.Files.Numbering

/-! # Files that can be opened again

Whatever path is acted on, a path that names a file keeps naming it until it is removed, even if both
paths lead to one place. Where it was removed, there is room for a new file. -/

namespace NetPool.FileSystem

open NetPool.Path

variable {fs fs' : FileSystem} {path other : String} {content : ByteArray} {id : FileId}

theorem later_write (h : fs.write path content = .ok fs') : Later fs fs' := by
  obtain ⟨q, id, _, hopen, rfl⟩ := exists_opened_of_write h
  have hlinked := linked_of_fileId (fileId_of_openOrCreate hopen)
  refine (later_openOrCreate hopen).trans ⟨Nat.le_refl _, ?_⟩
  rintro id' ⟨q', content', hnode⟩
  left
  rw [node?_set] at hnode
  split at hnode
  · cases hnode
    exact hlinked
  · exact ⟨q', content', hnode⟩

/-! ## Other places -/

/-- A file that a path names is spared wherever there is no directory but the file itself. -/
theorem spares_set (h : fs.look path = .ok (.file id content)) {q : List String}
    (hplace : q ≠ fs.placeOf path) (hnode : fs.node? q ≠ some .directory) (node : Option Node) :
    Spares path fs (fs.set q node) := by
  obtain ⟨dirs, name, hslot, hopen, _⟩ := slot_of_look h
  refine .set hplace (fun hmem => ?_) node
  rw [routeOf, hslot.parts, route_concat _ _ hslot.named, ← hslot.placeOf_eq] at hmem
  rcases List.mem_append.mp hmem with hmem | hmem
  · exact hnode (directory_of_follow hopen hmem)
  · exact hplace (List.mem_singleton.mp hmem)

/-- Making directories leaves every file where it is. -/
theorem look_after_makeParents (h : fs.look path = .ok (.file id content)) (other : String) :
    (fs.makeParents other).2.look path = .ok (.file id content) := by
  obtain ⟨_, _, _, _, hnode⟩ := slot_of_look h
  obtain ⟨hdir, hkept, _⟩ := makeParents_kept fs other
  exact look_spared h ⟨hdir, by rw [hnode, (hkept _).file.mpr hnode], fun q _ => hkept q⟩

theorem look_after_openOrCreate (h : fs.look path = .ok (.file id content)) {q : List String}
    {id' : FileId} (hopen : fs.openOrCreate other = .ok (q, id', fs')) :
    fs'.look path = .ok (.file id content) := by
  cases opens_of_openOrCreate hopen with
  | existing _ _ => exact h
  | new _ hvacant =>
      obtain ⟨_, _, _, _, hnode⟩ := slot_of_look h
      have hplace : fs.placeOf other ≠ fs.placeOf path := by
        intro hsame
        rw [hsame, hnode] at hvacant
        cases hvacant
      have hset := spares_set h hplace (by rw [hvacant]; nofun) (some (.file fs.nextId .empty))
      exact look_spared h (hset.trans ⟨rfl, rfl, fun q _ => .inl rfl⟩)

/-- Where a file gets other content, every path keeps naming the file that it named. -/
theorem look_after_set (h : fs.look path = .ok (.file id content)) {id' : FileId} {old : ByteArray}
    (hother : fs.look other = .ok (.file id' old)) (new : ByteArray) :
    ∃ content',
      (fs.set (fs.placeOf other) (some (.file id' new))).look path = .ok (.file id content') := by
  obtain ⟨dirs, name, hslot, hopen, hnode⟩ := slot_of_look h
  obtain ⟨_, _, _, _, hnode'⟩ := slot_of_look hother
  by_cases hplace : fs.placeOf other = fs.placeOf path
  · rw [hplace, hnode] at hnode'
    cases hnode'
    have hending := (hslot.filled content rfl).1
    have hset := hslot.set (some (.file id new)) (some new) nofun fun c hc =>
      ⟨hending, id, by rw [Option.some.inj hc]⟩
    rw [hplace]
    exact ⟨new, look_of_slot hset (Open.set hslot hopen _) (if_pos rfl)⟩
  · exact ⟨content, look_spared h (spares_set h hplace (by rw [hnode']; nofun) _)⟩

theorem look_after_write (h : fs.look path = .ok (.file id content)) {new : ByteArray}
    (hwrite : fs.write other new = .ok fs') : ∃ content', fs'.look path = .ok (.file id content') := by
  obtain ⟨_, id', _, hopen, rfl⟩ := exists_opened_of_write hwrite
  -- Once the file is open, writing is giving it other content.
  obtain ⟨old, hother⟩ := look_of_fileId (fileId_of_openOrCreate hopen)
  rw [← placeOf_of_openOrCreate hopen]
  exact look_after_set (look_after_openOrCreate h hopen) hother new

/-! ## Room for a new file -/

/-- The path names nothing, and a file can be made there. -/
def Vacant (fs : FileSystem) (path : String) : Prop :=
  (Path.ofText path).ending = .plain ∧ ∃ dirs name, Slot fs path dirs name none ∧ Open fs path dirs

/-- The path names that file, or there is room for a new one. -/
def Reopens (fs : FileSystem) (path : String) (id : FileId) : Prop :=
  (∃ content, fs.look path = .ok (.file id content)) ∨ Vacant fs path

theorem vacant_of_look (h : fs.look path = .ok (.file id content)) :
    Vacant (fs.set (fs.placeOf path) none) path := by
  obtain ⟨dirs, name, hslot, hopen, _⟩ := slot_of_look h
  exact ⟨(hslot.filled content rfl).1, dirs, name,
    hslot.set none none (fun _ => rfl) nofun, Open.set hslot hopen none⟩

/-- Removing a file elsewhere leaves a path what it names. -/
theorem look_after_remove (h : fs.look path = .ok (.file id content))
    (hremove : fs.removeIfPresent other = .ok fs') (hplace : fs.placeOf other ≠ fs.placeOf path) :
    fs'.look path = .ok (.file id content) := by
  rcases look_of_removeIfPresent hremove with ⟨_, rfl⟩ | ⟨id', old, hother, rfl⟩
  · exact h
  · obtain ⟨_, _, _, _, hnode⟩ := slot_of_look hother
    exact look_spared h (spares_set h hplace (by rw [hnode]; nofun) none)

/-- Removing a file leaves a path what it names, or makes room there. -/
theorem reopens_after_remove (h : fs.look path = .ok (.file id content))
    (hremove : fs.removeIfPresent other = .ok fs') : Reopens fs' path id := by
  by_cases hplace : fs.placeOf other = fs.placeOf path
  · rcases look_of_removeIfPresent hremove with ⟨_, rfl⟩ | ⟨_, _, _, rfl⟩
    · exact .inl ⟨content, h⟩
    · rw [hplace]
      exact .inr (vacant_of_look h)
  · exact .inl ⟨content, look_after_remove h hremove hplace⟩

/-- Where there is room, opening makes a new file. -/
theorem Vacant.openOrCreate (h : Vacant fs path) :
    (fs.makeParents path).1 = .ok () ∧
      ∃ q, (fs.makeParents path).2.openOrCreate path =
        .ok (q, fs.nextId, (fs.makeParents path).2.created q) := by
  obtain ⟨hplain, dirs, name, hslot, _⟩ := h
  obtain ⟨hmade, hspares, hopen⟩ := hslot.makeParents
  have hslot' := hslot.spared hspares
  have hlocate := hslot'.locate hopen
  rw [hplain] at hlocate
  refine ⟨hmade, (fs.makeParents path).2.placeOf path, ?_⟩
  rw [openOrCreate_of_entry hlocate, hslot'.vacant rfl, nextId_makeParents]

end NetPool.FileSystem
