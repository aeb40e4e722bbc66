import NetPool.Proofs.Lock
import NetPool.Proofs.Lock.Grant

/-! # Locks that can be taken

A lock that could be taken once can be taken again after it was let go, whatever was done under it,
as long as that left the lock file alone. -/

namespace NetPool.Lock

open NetPool.Effect NetPool.Action FileSystem

variable {α : Type} {path : String} {seconds : Nat} {w w' w'' : World} {g : Guard}

/-- The lock can be taken. -/
def Usable (path : String) (seconds : Nat) (w : World) : Prop :=
  ∃ g w', (acquire path seconds).outcome w = (.ok g, w')

/-- The lock file is there, and nobody holds it. -/
structure Ready (path : String) (seconds : Nat) (w : World) : Prop where
  wait : w.canWait seconds = true
  free : ∃ file content, w.files.look path = .ok (.file file content) ∧ w.isHeld file = false

theorem openFile_of_look {file : FileId} {content : ByteArray}
    (h : w.files.look path = .ok (.file file content)) :
    (openFile path).outcome w = (.ok file, w.withFiles (w.files.makeParents path).2) := by
  obtain ⟨hmade, hlook⟩ := look_makeParents h
  rw [openFile, outcome_bind, outcome_changingFiles, hmade]
  simp only [mapError_ok, outcome_of, World.withFiles, openOrCreate_of_look hlook]

/-- A free file is taken as soon as it is open. -/
theorem tryAcquire_of_free {file : FileId} (hwait : w.canWait seconds = true)
    (hopen : (openFile path).outcome w = (.ok file, w')) (hfree : w'.isHeld file = false) :
    (tryAcquire path seconds).outcome w = (.ok (w'.grant file).1, (w'.grant file).2) := by
  have hstart := (outcome_bind_ok hopen claim).trans (outcome_claim_of_free hfree)
  rw [outcome_tryAcquire, if_pos hwait, start, outcome_bind_ok hstart]
  rfl

theorem Ready.usable (h : Ready path seconds w) : Usable path seconds w := by
  obtain ⟨file, content, hlook, hfree⟩ := h.free
  have htry := tryAcquire_of_free h.wait (openFile_of_look hlook) hfree
  exact ⟨_, _, by rw [outcome_acquire, htry]⟩

theorem canWait_of_acquire (h : (acquire path seconds).outcome w = (.ok g, w')) :
    w.canWait seconds = true := by
  cases hwait : w.canWait seconds with
  | true => rfl
  | false =>
      rw [outcome_acquire, outcome_tryAcquire, hwait] at h
      cases h

theorem isHeld_release (hgranted : Granted w g w') (hguards : w''.guards = w'.guards) :
    (w''.release g).isHeld g.file = false := by
  have hothers : ∀ g' ∈ w.guards, g'.file ≠ g.file := by
    intro g' hg' hfile
    have hheld : w.isHeld g.file = true := List.any_eq_true.mpr ⟨g', hg', decide_eq_true hfile⟩
    rw [hgranted.free] at hheld
    cases hheld
  refine List.any_eq_false.mpr fun g' hg' => ?_
  rw [World.release, hguards, hgranted.guards] at hg'
  obtain ⟨hmem, hid⟩ := List.mem_filter.mp hg'
  rcases List.mem_cons.mp hmem with rfl | hmem
  · simp at hid
  · simpa using hothers g' hmem

/-- The lock is ready again after it was taken and let go. -/
theorem ready_of_acquire (h : (acquire path seconds).outcome w = (.ok g, w'))
    (hspares : Spares path w'.files w''.files) (hguards : w''.guards = w'.guards)
    (huptime : w''.uptime = w'.uptime) : Ready path seconds (w''.release g) := by
  have htaken := acquire_taken path seconds w
  rw [h] at htaken
  obtain ⟨hgranted, hnamed⟩ := htaken
  refine ⟨?_, ?_⟩
  · have hwait := canWait_of_acquire h
    rw [World.canWait, ← hgranted.uptime, ← huptime] at hwait
    exact hwait
  · obtain ⟨content, hlook⟩ := look_of_fileId hnamed
    exact ⟨g.file, content, look_spared hlook hspares, isHeld_release hgranted hguards⟩

/-! ## Leaving a lock alone -/

/-- The lock is left alone by an action on another path that is apart from it. -/
structure LeavesAlone (other path : String) (w w' : World) : Prop where
  spares : SparesApart other path w w'
  guards : w'.guards = w.guards
  uptime : w'.uptime = w.uptime

theorem composes_leavesAlone (other path : String) : Composes (LeavesAlone other path) where
  refl w := ⟨(composes_sparesApart other path).refl w, rfl, rfl⟩
  trans h h' := ⟨(composes_sparesApart other path).trans h.spares h'.spares,
    h'.guards.trans h.guards, h'.uptime.trans h.uptime⟩

theorem LeavesAlone.of_files {other : String} (hfiles : w'.files = w.files)
    (hguards : w'.guards = w.guards) (huptime : w'.uptime = w.uptime) :
    LeavesAlone other path w w' :=
  ⟨fun _ => hfiles ▸ .refl path w.files, hguards, huptime⟩

theorem leavesAlone_onFiles {other : String} {f : FileSystem → Except IoError FileSystem}
    (hf : ∀ {files files'}, f files = .ok files' → Apart files other path →
      Spares path files files') : Leads (LeavesAlone other path) (onFiles f) := by
  intro w
  rw [outcome_onFiles]
  split
  · rename_i hok
    exact ⟨hf hok, rfl, rfl⟩
  · exact (composes_leavesAlone other path).refl w

theorem leavesAlone_makeParents {other : String} :
    Leads (LeavesAlone other path) (changingFiles (·.makeParents other)) :=
  fun _ => ⟨fun hapart => hapart.makeParents, rfl, rfl⟩

/-- A lock that can be taken still can after something was done under it. -/
theorem Usable.holding {other : String} {action : Action α} (h : Usable path seconds w)
    (hapart : Apart w.files path other) (hleaves : Leads (LeavesAlone other path) action) :
    Usable path seconds ((holding path seconds action).outcome w).2 := by
  obtain ⟨g, w', hacquire⟩ := h
  have hspares := @leads_acquire path other seconds w hapart
  rw [hacquire] at hspares
  obtain ⟨hother, hguards, huptime⟩ := hleaves w'
  rw [outcome_holding, hacquire]
  refine (ready_of_acquire hacquire (hother ?_) hguards huptime).usable
  exact (hapart.of_workDir hspares.workDir).symm

end NetPool.Lock
