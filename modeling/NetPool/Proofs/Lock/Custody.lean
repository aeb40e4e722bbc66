import NetPool.Proofs.Files.Reopen
import NetPool.Proofs.Files.Rules
import NetPool.Proofs.Lock.Contest
import NetPool.Proofs.Lock.Usable

/-! # Guards that others have

Guards are different ones on different files. Whoever takes a lock and lets go of it leaves the guards
of all others. If a guard is never let go of, the lock is taken on a new file, which the old guard has
nothing to do with. -/

namespace NetPool.Lock

open NetPool.Effect NetPool.Action FileSystem
open Contest (Differ differ_of_granted)

variable {α : Type} {path : String} {seconds : Nat} {w w' w'' : World} {g g' : Guard}

/-- Any two guards differ, and the next guard and the next file differ from all there are. -/
structure Custody (w : World) : Prop where
  numbered : w.files.Numbered
  distinct : w.guards.Pairwise Differ
  below : ∀ g ∈ w.guards, g.id < w.nextGuard
  known : ∀ g ∈ w.guards, g.file < w.files.nextId

theorem custody_of_no_guards (hguards : w.guards = []) (hnumbered : w.files.Numbered) :
    Custody w := by
  refine ⟨hnumbered, hguards ▸ .nil, fun g hg => ?_, fun g hg => ?_⟩
  · rw [hguards] at hg
    cases hg
  · rw [hguards] at hg
    cases hg

/-- All guards are as before. Others may have come and gone. -/
structure Returns (w w' : World) : Prop where
  files : Later w.files w'.files
  guards : w'.guards = w.guards
  nextGuard : w.nextGuard ≤ w'.nextGuard
  uptime : w'.uptime = w.uptime

theorem Returns.refl (w : World) : Returns w w := ⟨.refl w.files, rfl, Nat.le_refl _, rfl⟩

theorem Returns.trans (h : Returns w w') (h' : Returns w' w'') : Returns w w'' :=
  ⟨h.files.trans h'.files, h'.guards.trans h.guards, Nat.le_trans h.nextGuard h'.nextGuard,
    h'.uptime.trans h.uptime⟩

theorem Passes.returns (h : Passes w w') : Returns w w' :=
  ⟨h.files, h.guards, Nat.le_of_eq h.nextGuard.symm, h.uptime⟩

namespace Custody

theorem returns (h : Custody w) (hreturns : Returns w w') : Custody w' := by
  refine ⟨hreturns.files.numbered h.numbered, ?_, fun g hg => ?_, fun g hg => ?_⟩
  · rw [hreturns.guards]
    exact h.distinct
  · rw [hreturns.guards] at hg
    exact Nat.lt_of_lt_of_le (h.below g hg) hreturns.nextGuard
  · rw [hreturns.guards] at hg
    exact Nat.lt_of_lt_of_le (h.known g hg) hreturns.files.nextId

theorem taken {r : Except Error Guard} (h : Custody w) (htaken : Taken path w r w') :
    Custody w' := by
  cases r with
  | error e => exact h.returns (Passes.returns htaken)
  | ok g =>
      obtain ⟨hgranted, hnamed⟩ := htaken
      have hnumbered := hgranted.files.numbered h.numbered
      obtain ⟨hdistinct, hbelow⟩ := differ_of_granted hgranted h.distinct h.below
      refine ⟨hnumbered, hdistinct, hbelow, fun g' hg' => ?_⟩
      rw [hgranted.guards] at hg'
      rcases List.mem_cons.mp hg' with rfl | hg'
      · exact hnumbered g'.file (linked_of_fileId hnamed)
      · exact Nat.lt_of_lt_of_le (h.known g' hg') hgranted.files.nextId

theorem release (h : Custody w) (g : Guard) : Custody (w.release g) :=
  ⟨h.numbered, h.distinct.sublist List.filter_sublist,
    fun g' hg' => h.below g' (List.mem_filter.mp hg').1,
    fun g' hg' => h.known g' (List.mem_filter.mp hg').1⟩

theorem differ (h : Custody w) (hg : g ∈ w.guards) (hg' : g' ∈ w.guards) (hne : g' ≠ g) :
    Differ g' g :=
  h.distinct.forall hg' hg hne

/-! ## Letting go -/

/-- Letting go of a guard ends that one and leaves all others. -/
theorem mem_release (h : Custody w) (hg : g ∈ w.guards) :
    g' ∈ (w.release g).guards ↔ g' ∈ w.guards ∧ g' ≠ g := by
  rw [World.release, List.mem_filter, decide_eq_true_iff]
  constructor
  · rintro ⟨hmem, hid⟩
    exact ⟨hmem, fun heq => hid (heq ▸ rfl)⟩
  · rintro ⟨hmem, hne⟩
    exact ⟨hmem, (h.differ hg hmem hne).1⟩

/-- Letting go of a guard frees its file and no other. -/
theorem isHeld_after_release (h : Custody w) (hg : g ∈ w.guards) (file : FileId) :
    (w.release g).isHeld file = true ↔ w.isHeld file = true ∧ file ≠ g.file := by
  simp only [World.isHeld, List.any_eq_true, decide_eq_true_iff, h.mem_release hg]
  constructor
  · rintro ⟨g', ⟨hmem, hne⟩, rfl⟩
    exact ⟨⟨g', hmem, rfl⟩, (h.differ hg hmem hne).2⟩
  · rintro ⟨⟨g', hmem, rfl⟩, hfile⟩
    exact ⟨g', ⟨hmem, fun heq => hfile (heq ▸ rfl)⟩, rfl⟩

/-- Whoever lets go of the guard that was granted last leaves the guards from before. -/
theorem guards_release (h : Custody w') {gs : List Guard} (hguards : w'.guards = g :: gs) :
    (w'.release g).guards = gs := by
  have hdistinct := h.distinct
  rw [hguards] at hdistinct
  rw [World.release, hguards, List.filter_cons_of_neg (by simp)]
  refine List.filter_eq_self.mpr fun g' hg' => decide_eq_true ?_
  exact (List.rel_of_pairwise_cons hdistinct hg').1.symm

/-- What is done under a lock leaves the guards as they were before, however it ends. -/
theorem holding_returns (h : Custody w) {action : Action α} (haction : Leads Passes action) :
    Returns w ((holding path seconds action).outcome w).2 := by
  have htaken := acquire_taken path seconds w
  rw [outcome_holding]
  rcases houtcome : (acquire path seconds).outcome w with ⟨r, w'⟩
  rw [houtcome] at htaken
  cases r with
  | error e => exact Passes.returns htaken
  | ok g =>
      have hpasses := haction w'
      have hcustody := (h.taken htaken).returns hpasses.returns
      obtain ⟨hgranted, _⟩ := htaken
      have hnext := hpasses.nextGuard.trans hgranted.nextGuard
      exact ⟨hgranted.files.trans hpasses.files,
        hcustody.guards_release (hpasses.guards.trans hgranted.guards),
        Nat.le_trans (Nat.le_succ _) (Nat.le_of_eq hnext.symm), hpasses.uptime.trans hgranted.uptime⟩

end Custody

/-! ## Locks that are free -/

/-- Whoever asks for the lock gets it at once. -/
def Free (path : String) (w : World) : Prop :=
  ∀ seconds, w.canWait seconds = true → ∃ g w', (tryAcquire path seconds).outcome w = (.ok g, w')

theorem Free.usable (h : Free path w) (hwait : w.canWait seconds = true) :
    Usable path seconds w := by
  obtain ⟨g, w', htry⟩ := h seconds hwait
  exact ⟨g, w', by rw [outcome_acquire, htry]⟩

/-- Who cannot tell the end of a wait does not begin it. -/
theorem acquire_of_no_wait (hwait : w.canWait seconds = false) :
    (acquire path seconds).outcome w = (.error (.outOfRange .deadline), w) := by
  rw [outcome_acquire, outcome_tryAcquire, hwait]
  rfl

theorem openFile_of_vacant (h : Vacant w.files path) :
    ∃ files, (openFile path).outcome w = (.ok w.files.nextId, w.withFiles files) := by
  obtain ⟨hmade, q, hopen⟩ := h.openOrCreate
  refine ⟨(w.files.makeParents path).2.created q, ?_⟩
  rw [openFile, outcome_bind, outcome_changingFiles, hmade]
  simp only [mapError_ok, outcome_of, World.withFiles, hopen]

namespace Custody

theorem isHeld_nextId (h : Custody w) : w.isHeld w.files.nextId = false := by
  refine List.any_eq_false.mpr fun g hg => ?_
  have hlt := h.known g hg
  simpa using Nat.ne_of_lt hlt

/-- Where there is room for a lock file, the lock is taken on a new one. -/
theorem tryAcquire_of_vacant (h : Custody w) (hvacant : Vacant w.files path)
    (hwait : w.canWait seconds = true) :
    ∃ w', (tryAcquire path seconds).outcome w = (.ok ⟨w.nextGuard, w.files.nextId⟩, w') := by
  obtain ⟨files, hopen⟩ := openFile_of_vacant hvacant
  have hfree : (w.withFiles files).isHeld w.files.nextId = false := h.isHeld_nextId
  have htry := tryAcquire_of_free hwait hopen hfree
  exact ⟨_, htry⟩

theorem free_of_reopens (h : Custody w) {file : FileId} (hreopens : Reopens w.files path file)
    (hfree : w.isHeld file = false) : Free path w := by
  intro seconds hwait
  rcases hreopens with ⟨content, hlook⟩ | hvacant
  · exact ⟨_, _, tryAcquire_of_free hwait (openFile_of_look hlook) hfree⟩
  · obtain ⟨w', htry⟩ := h.tryAcquire_of_vacant hvacant hwait
    exact ⟨_, w', htry⟩

end Custody

/-- As long as somebody holds the file, the wait ends without a guard. -/
theorem tryAcquire_of_held {file : FileId} {content : ByteArray}
    (hlook : w.files.look path = .ok (.file file content)) (hheld : w.isHeld file = true)
    (hwait : w.canWait seconds = true) :
    (tryAcquire path seconds).outcome w =
      (.error (.lockTimeout path seconds), w.withFiles (w.files.makeParents path).2) := by
  have hclaim := outcome_claim_of_held (w := w.withFiles (w.files.makeParents path).2) hheld
  have hstart := (outcome_bind_ok (openFile_of_look hlook) claim).trans hclaim
  rw [outcome_tryAcquire, if_pos hwait, start, outcome_bind_ok hstart]
  rfl

/-- What is left of the world after a wait in vain. -/
theorem removes_after_wait {file : FileId} {content : ByteArray}
    (hlook : w.files.look path = .ok (.file file content)) (hheld : w.isHeld file = true)
    (hwait : w.canWait seconds = true) :
    (acquire path seconds).outcome w =
      (onFiles (·.removeIfPresent path) >>= fun _ => tryAcquire path seconds).outcome
        (w.withFiles (w.files.makeParents path).2) := by
  rw [outcome_acquire, tryAcquire_of_held hlook hheld hwait]
  rfl

/-- If a guard is held until the wait is over, and the file can be removed, the lock is taken on a new
file. -/
theorem Custody.acquire_of_stale (h : Custody w) (hg : g ∈ w.guards)
    (hnamed : w.files.fileId path = .ok g.file) (hwait : w.canWait seconds = true)
    (hremovable : w.files.Allows path none) :
    ∃ w', (acquire path seconds).outcome w = (.ok ⟨w.nextGuard, w.files.nextId⟩, w') := by
  obtain ⟨content, hlook⟩ := look_of_fileId hnamed
  have hheld : w.isHeld g.file = true := List.any_eq_true.mpr ⟨g, hg, decide_eq_true rfl⟩
  obtain ⟨_, hlook'⟩ := look_makeParents hlook
  have hallowed := (sameRules_makeParents w.files path).allows hremovable
  -- The wait is over: the file that is held is removed, and there is room for another.
  have hremove : (onFiles (·.removeIfPresent path)).outcome
        (w.withFiles (w.files.makeParents path).2) =
      (.ok (), w.withFiles ((w.files.makeParents path).2.set
        ((w.files.makeParents path).2.placeOf path) none)) := by
    rw [outcome_onFiles, World.withFiles, removeIfPresent_of_look hlook' hallowed]
    rfl
  have hpasses := composes_passes.trans (passes_makeParents path w)
    (passes_removeIfPresent path (w.withFiles (w.files.makeParents path).2))
  rw [hremove] at hpasses
  obtain ⟨w', htry⟩ := (h.returns hpasses.returns).tryAcquire_of_vacant (vacant_of_look hlook') hwait
  refine ⟨w', ?_⟩
  rw [removes_after_wait hlook hheld hwait, outcome_bind_ok hremove, htry, World.withFiles,
    FileSystem.set, nextId_makeParents]

/-- If the file cannot be removed, the wait was in vain, and all is left as it was then. -/
theorem acquire_of_refused {file : FileId} {content : ByteArray} {r : Refusal}
    (hlook : w.files.look path = .ok (.file file content)) (hheld : w.isHeld file = true)
    (hwait : w.canWait seconds = true)
    (hrefused : w.files.refusal? (w.files.placeOf path) none = some r) :
    (acquire path seconds).outcome w =
      (.error (.io r.error), w.withFiles (w.files.makeParents path).2) := by
  obtain ⟨_, hlook'⟩ := look_makeParents hlook
  have hrefused' := ((sameRules_makeParents w.files path).refusal?_placeOf path none).trans hrefused
  have hfails : (onFiles (·.removeIfPresent path)).outcome
        (w.withFiles (w.files.makeParents path).2) =
      (.error (.io r.error), w.withFiles (w.files.makeParents path).2) := by
    rw [outcome_onFiles, World.withFiles, removeIfPresent_of_refused hlook' hrefused']
  rw [removes_after_wait hlook hheld hwait, outcome_bind_error hfails]

end NetPool.Lock
