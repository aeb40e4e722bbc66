import NetPool.Proofs.Files.Content

/-! # Other paths

Acting on a path spares every path that is apart from it. -/

namespace NetPool.FileSystem

open NetPool.Path

variable {fs fs' fs'' : FileSystem} {path : String}

/-- The other path is not the path, nor is it inside it or above it: neither leads through the place
of the other. -/
structure Apart (fs : FileSystem) (other path : String) : Prop where
  distinct : fs.placeOf other ≠ fs.placeOf path
  above : fs.placeOf other ∉ fs.routeOf path
  inside : fs.placeOf path ∉ fs.routeOf other

theorem Apart.of_workDir {other : String} (h : Apart fs other path)
    (hdir : fs'.workDir = fs.workDir) : Apart fs' other path := by
  refine ⟨?_, ?_, ?_⟩
  · rw [placeOf_eq_of_workDir hdir, placeOf_eq_of_workDir hdir]
    exact h.distinct
  · rw [placeOf_eq_of_workDir hdir, routeOf_eq_of_workDir hdir]
    exact h.above
  · rw [placeOf_eq_of_workDir hdir, routeOf_eq_of_workDir hdir]
    exact h.inside

theorem Apart.symm {other : String} (h : Apart fs other path) : Apart fs path other :=
  ⟨h.distinct.symm, h.inside, h.above⟩

/-- For paths without steps upwards, it suffices that neither place is on the way to the other. -/
theorem apart_of_incomparable {other : String} (hother : upName ∉ (Path.ofText other).parts)
    (hpath : upName ∉ (Path.ofText path).parts)
    (habove : ¬ fs.placeOf other <+: fs.placeOf path)
    (hinside : ¬ fs.placeOf path <+: fs.placeOf other) : Apart fs other path where
  distinct h := habove (h ▸ List.prefix_rfl)
  above h := habove (prefix_reach_of_mem_route hpath h)
  inside h := hinside (prefix_reach_of_mem_route hother h)

theorem Spares.set {q : List String} (hplace : q ≠ fs.placeOf path) (hroute : q ∉ fs.routeOf path)
    (node : Option Node) : Spares path fs (fs.set q node) := by
  refine ⟨rfl, ?_, fun p hp => .inl ?_⟩
  · rw [node?_set, if_neg (Ne.symm hplace)]
  · rw [node?_set, if_neg]
    rintro rfl
    exact hroute hp

section Others

variable {other : String}

theorem Apart.makeParents (h : Apart fs other path) :
    Spares path fs (fs.makeParents other).2 := by
  obtain ⟨hdir, hkept, hframe⟩ := makeParents_kept fs other
  exact ⟨hdir, hframe _ fun hmem => h.inside (mem_routeOf_of_dropLast hmem), fun q _ => hkept q⟩

theorem Apart.openOrCreate (h : Apart fs other path) {q : List String} {id : FileId}
    (hopen : fs.openOrCreate other = .ok (q, id, fs')) : Spares path fs fs' := by
  cases opens_of_openOrCreate hopen with
  | existing _ _ => exact .refl path fs
  | new _ _ =>
      have hset := Spares.set h.distinct h.above (some (.file fs.nextId .empty))
      exact hset.trans ⟨rfl, rfl, fun q _ => .inl rfl⟩

theorem Apart.write (h : Apart fs other path) {content : ByteArray}
    (hwrite : fs.write other content = .ok fs') : Spares path fs fs' := by
  obtain ⟨_, id, _, hopen, rfl⟩ := exists_opened_of_write hwrite
  have hopened := h.openOrCreate hopen
  have hapart := h.of_workDir hopened.workDir
  rw [← placeOf_of_openOrCreate hopen]
  exact hopened.trans (.set hapart.distinct hapart.above (some (.file id content)))

theorem Apart.removeIfPresent (h : Apart fs other path)
    (hremove : fs.removeIfPresent other = .ok fs') : Spares path fs fs' := by
  rcases look_of_removeIfPresent hremove with ⟨_, rfl⟩ | ⟨_, _, _, rfl⟩
  · exact .refl path fs'
  · exact .set h.distinct h.above none

end Others

end NetPool.FileSystem
