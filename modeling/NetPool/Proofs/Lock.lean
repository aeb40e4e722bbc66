import NetPool.Lock
import NetPool.Proofs.Action
import NetPool.Proofs.Files.Confined

/-! # Locks and other files

Taking and letting go of a lock touches the lock file and the directories above it only. A path that
is apart from the path of the lock is spared. -/

namespace NetPool.Lock

open NetPool.Effect NetPool.Action FileSystem

variable {α : Type} {lockPath path : String}

/-- What the holder of a lock has done under it, with the lock let go at the end. -/
theorem outcome_holding (seconds : Nat) (action : Action α) (w : World) :
    (holding lockPath seconds action).outcome w =
      match (acquire lockPath seconds).outcome w with
      | (.error e, w') => (.error e, w')
      | (.ok g, w') => ((action.outcome w').1, (action.outcome w').2.release g) := by
  rw [holding, outcome_bind]
  rcases (acquire lockPath seconds).outcome w with ⟨r, w'⟩
  cases r with
  | error e => rfl
  | ok g =>
      simp only [outcome_tryCatch, outcome_bind]
      rcases action.outcome w' with ⟨r, w''⟩
      cases r with
      | ok a => rfl
      | error e => rfl

/-! ## What taking a lock does to the world -/

/-- A relation that holds of whatever is done to the world when the lock of a path is taken. -/
structure HoldsOfSteps (path : String) (R : World → World → Prop) : Prop extends Composes R where
  parents : Leads R (changingFiles (·.makeParents path))
  opens : ∀ {w q file files}, w.files.openOrCreate path = .ok (q, file, files) →
    R w (w.withFiles files)
  removes : ∀ {w files}, w.files.removeIfPresent path = .ok files → R w (w.withFiles files)
  grants : ∀ w file, R w (w.grant file).2

namespace HoldsOfSteps

variable {R : World → World → Prop} (hR : HoldsOfSteps path R)

include hR

theorem openFile : Leads R (openFile path) := by
  refine hR.bind hR.parents fun _ w => ?_
  rw [outcome_of]
  split
  · exact hR.refl w
  · rename_i hopen
    exact hR.opens hopen

theorem claim (file : FileId) : Leads R (claim file) := by
  intro w
  rw [Lock.claim, outcome_of]
  split
  · exact hR.refl w
  · exact hR.grants w file

theorem wait (seconds : Nat) : Leads R (start path >>= settle path seconds) := by
  refine hR.bind (hR.bind hR.openFile hR.claim) fun attempt => ?_
  cases attempt with
  | granted g => exact hR.pure g
  | waiting file => exact hR.throw _

theorem tryAcquire (seconds : Nat) : Leads R (tryAcquire path seconds) := by
  refine hR.bind hR.get fun w => ?_
  dsimp only
  split
  · exact hR.bind (hR.throw _) fun _ => hR.wait seconds
  · exact hR.wait seconds

theorem removeIfPresent : Leads R (onFiles (·.removeIfPresent path)) := by
  intro w
  rw [outcome_onFiles]
  split
  · rename_i hremove
    exact hR.removes hremove
  · exact hR.refl w

theorem acquire (seconds : Nat) : Leads R (acquire path seconds) := by
  refine hR.tryCatch (hR.tryAcquire seconds) fun e => ?_
  split
  · exact hR.bind hR.removeIfPresent fun _ => hR.tryAcquire seconds
  · exact hR.throw e

end HoldsOfSteps

/-! ## Other files -/

/-- If the path is apart from the other one, it is spared. -/
def SparesApart (other path : String) (w w' : World) : Prop :=
  Apart w.files other path → Spares path w.files w'.files

theorem composes_sparesApart (other path : String) : Composes (SparesApart other path) where
  refl w _ := .refl path w.files
  trans h h' hapart := (h hapart).trans (h' (hapart.of_workDir (h hapart).workDir))

theorem holdsOfSteps_sparesApart (lockPath path : String) :
    HoldsOfSteps lockPath (SparesApart lockPath path) where
  toComposes := composes_sparesApart lockPath path
  parents _ hapart := hapart.makeParents
  opens hopen hapart := hapart.openOrCreate hopen
  removes hremove hapart := hapart.removeIfPresent hremove
  grants w _ _ := .refl path w.files

/-- Taking a lock spares every path that is apart from the path of the lock. -/
theorem leads_acquire (seconds : Nat) :
    Leads (SparesApart lockPath path) (acquire lockPath seconds) :=
  (holdsOfSteps_sparesApart lockPath path).acquire seconds

theorem holdsOfSteps_confined (path : String) :
    HoldsOfSteps path fun w w' => Confined path w.files w'.files where
  refl w := .refl path w.files
  trans h h' := h.trans h'
  parents w := confined_makeParents w.files path path
  opens hopen := confined_openOrCreate hopen
  removes hremove := confined_removeIfPresent hremove
  grants w _ := .refl path w.files

/-- Taking a lock changes no other file than the one at its path. -/
theorem confined_acquire (path : String) (seconds : Nat) (w : World) :
    Confined path w.files ((acquire path seconds).outcome w).2.files :=
  (holdsOfSteps_confined path).acquire seconds w

end NetPool.Lock
