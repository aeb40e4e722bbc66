import NetPool.Lock
import NetPool.Proofs.Action
import NetPool.Proofs.Files.Numbering

/-! # Granting a lock

Whoever asks for the lock of a path gets a new guard on a file that nobody held and that the path
names at that moment, or gets no guard at all. -/

namespace NetPool.Lock

open NetPool.Effect NetPool.Action FileSystem

variable {path : String} {w w' w'' : World}

/-- Nobody gets a lock or lets go of one, though files may be made and removed. -/
structure Passes (w w' : World) : Prop where
  files : Later w.files w'.files
  guards : w'.guards = w.guards
  nextGuard : w'.nextGuard = w.nextGuard
  uptime : w'.uptime = w.uptime

/-- A new guard on a file that nobody held. -/
structure Granted (w : World) (g : Guard) (w' : World) : Prop where
  files : Later w.files w'.files
  id : g.id = w.nextGuard
  free : w.isHeld g.file = false
  guards : w'.guards = g :: w.guards
  nextGuard : w'.nextGuard = w.nextGuard + 1
  uptime : w'.uptime = w.uptime

theorem composes_passes : Composes Passes where
  refl w := ⟨.refl w.files, rfl, rfl, rfl⟩
  trans h h' := ⟨h.files.trans h'.files, h'.guards.trans h.guards, h'.nextGuard.trans h.nextGuard,
    h'.uptime.trans h.uptime⟩

theorem Passes.withFiles {files : FileSystem} (h : Later w.files files) :
    Passes w (w.withFiles files) :=
  ⟨h, rfl, rfl, rfl⟩

theorem Passes.isHeld (h : Passes w w') (file : FileId) : w'.isHeld file = w.isHeld file := by
  rw [World.isHeld, World.isHeld, h.guards]

theorem Granted.after {g : Guard} (h : Passes w w') (h' : Granted w' g w'') : Granted w g w'' where
  files := h.files.trans h'.files
  id := h'.id.trans h.nextGuard
  free := (h.isHeld g.file).symm.trans h'.free
  guards := by rw [h'.guards, h.guards]
  nextGuard := by rw [h'.nextGuard, h.nextGuard]
  uptime := h'.uptime.trans h.uptime

theorem granted_grant {file : FileId} (h : w.isHeld file = false) :
    Granted w (w.grant file).1 (w.grant file).2 :=
  ⟨.refl w.files, rfl, h, rfl, rfl, rfl⟩

/-! ## Single steps -/

theorem passes_makeParents (path : String) :
    Leads Passes (changingFiles (·.makeParents path)) :=
  fun w => .withFiles (later_makeParents w.files path)

theorem passes_removeIfPresent (path : String) :
    Leads Passes (onFiles (·.removeIfPresent path)) := by
  intro w
  rw [outcome_onFiles]
  split
  · rename_i hremove
    exact .withFiles (later_removeIfPresent hremove)
  · exact composes_passes.refl w

/-- The lock file of a path is the one that it names once it is open. -/
def Opened (path : String) (w : World) : Except Error FileId → World → Prop
  | .ok file, w' => Passes w w' ∧ w'.files.fileId path = .ok file
  | .error _, w' => Passes w w'

theorem openFile_opened (path : String) (w : World) :
    Opened path w ((openFile path).outcome w).1 ((openFile path).outcome w).2 := by
  have hparents := passes_makeParents path w
  rw [outcome_changingFiles] at hparents
  rw [openFile, outcome_bind, outcome_changingFiles]
  cases (w.files.makeParents path).1 with
  | error e => exact hparents
  | ok u =>
      simp only [mapError_ok, outcome_of]
      split
      · exact hparents
      · rename_i hopen
        have hopened := Passes.withFiles (later_openOrCreate hopen)
        exact ⟨composes_passes.trans hparents hopened, fileId_of_openOrCreate hopen⟩

theorem outcome_claim_of_held {file : FileId} (h : w.isHeld file = true) :
    (claim file).outcome w = (.ok (.waiting file), w) := by
  rw [claim, outcome_of, if_pos h]

theorem outcome_claim_of_free {file : FileId} (h : w.isHeld file = false) :
    (claim file).outcome w = (.ok (.granted (w.grant file).1), (w.grant file).2) := by
  rw [claim, outcome_of, if_neg (by rw [h]; nofun)]

theorem outcome_names (path : String) (file : FileId) (w : World) :
    ∃ r, (names path file).outcome w = (r, w) ∧
      (r = .ok true → w.files.fileId path = .ok file) := by
  refine ⟨_, rfl, fun hnamed => ?_⟩
  dsimp only at hnamed
  split at hnamed
  · rename_i id content hlook
    obtain rfl : id = file := by simpa using hnamed
    exact fileId_of_look hlook
  · cases hnamed
  · cases hnamed
  · cases hnamed

theorem outcome_names_of_fileId {file : FileId} (h : w.files.fileId path = .ok file) :
    (names path file).outcome w = (.ok true, w) := by
  obtain ⟨content, hlook⟩ := look_of_fileId h
  rw [names, outcome_observe, hlook]
  simp

/-! ## Attempts -/

/-- What an attempt has come to: a guard on the file that the path names, a file to wait on, or
nothing. -/
def Attempted (path : String) (w : World) : Except Error Attempt → World → Prop
  | .ok (.granted g), w' => Granted w g w' ∧ w'.files.fileId path = .ok g.file
  | .ok (.waiting file), w' => Passes w w' ∧ w'.files.Linked file
  | .error _, w' => Passes w w'

theorem claim_attempted {file : FileId} (h : w.files.fileId path = .ok file) :
    Attempted path w ((claim file).outcome w).1 ((claim file).outcome w).2 := by
  cases hheld : w.isHeld file with
  | true =>
      rw [outcome_claim_of_held hheld]
      exact ⟨composes_passes.refl w, linked_of_fileId h⟩
  | false =>
      rw [outcome_claim_of_free hheld]
      exact ⟨granted_grant hheld, h⟩

theorem Attempted.after {r : Except Error Attempt} (h : Passes w w') (h' : Attempted path w' r w'') :
    Attempted path w r w'' := by
  cases r with
  | error e => exact composes_passes.trans h h'
  | ok attempt =>
      cases attempt with
      | granted g => exact ⟨.after h h'.1, h'.2⟩
      | waiting file => exact ⟨composes_passes.trans h h'.1, h'.2⟩

theorem start_attempted (path : String) (w : World) :
    Attempted path w ((start path).outcome w).1 ((start path).outcome w).2 := by
  have hopened := openFile_opened path w
  rw [start, outcome_bind]
  rcases houtcome : (openFile path).outcome w with ⟨r, w'⟩
  rw [houtcome] at hopened
  cases r with
  | error e => exact hopened
  | ok file => exact .after hopened.1 (claim_attempted hopened.2)

/-- Whoever waits keeps waiting while the file is held. After that, the attempt counts for the file
that the path names by then. -/
theorem retry_attempted (path : String) (file : FileId) (w : World) :
    (retry path file).outcome w = (.ok (.waiting file), w) ∨
      Attempted path w ((retry path file).outcome w).1 ((retry path file).outcome w).2 := by
  have hget : (MonadState.get : Action World).outcome w = (.ok w, w) := rfl
  rw [retry, outcome_bind_ok hget]
  cases hheld : w.isHeld file with
  | true => exact .inl rfl
  | false =>
      refine .inr ?_
      obtain ⟨r, houtcome, hnamed⟩ := outcome_names path file w
      simp only [Bool.false_eq_true, if_false, outcome_bind, houtcome]
      cases r with
      | error e => exact composes_passes.refl w
      | ok same =>
          cases same with
          | true => exact claim_attempted (hnamed rfl)
          | false => exact start_attempted path w

/-! ## Calls that nobody interferes with -/

/-- What a call has come to: a guard on the file that the path names, or nothing. -/
def Taken (path : String) (w : World) : Except Error Guard → World → Prop
  | .ok g, w' => Granted w g w' ∧ w'.files.fileId path = .ok g.file
  | .error _, w' => Passes w w'

theorem Taken.after {r : Except Error Guard} (h : Passes w w') (h' : Taken path w' r w'') :
    Taken path w r w'' := by
  cases r with
  | error e => exact composes_passes.trans h h'
  | ok g => exact ⟨.after h h'.1, h'.2⟩

theorem outcome_tryAcquire (path : String) (seconds : Nat) (w : World) :
    (tryAcquire path seconds).outcome w =
      if w.canWait seconds then (start path >>= settle path seconds).outcome w
      else (.error (.outOfRange .deadline), w) := by
  have hget : (MonadState.get : Action World).outcome w = (.ok w, w) := rfl
  rw [tryAcquire, outcome_bind_ok hget]
  cases w.canWait seconds with
  | true => rfl
  | false => rfl

theorem tryAcquire_taken (path : String) (seconds : Nat) (w : World) :
    Taken path w ((tryAcquire path seconds).outcome w).1 ((tryAcquire path seconds).outcome w).2 := by
  have hstart := start_attempted path w
  rw [outcome_tryAcquire]
  split
  · rw [outcome_bind]
    rcases houtcome : (start path).outcome w with ⟨r, w'⟩
    rw [houtcome] at hstart
    cases r with
    | error e => exact hstart
    | ok attempt =>
        cases attempt with
        | granted g => exact hstart
        | waiting file => exact hstart.1
  · exact composes_passes.refl w

theorem outcome_acquire (path : String) (seconds : Nat) (w : World) :
    (acquire path seconds).outcome w =
      match (tryAcquire path seconds).outcome w with
      | (.ok g, w') => (.ok g, w')
      | (.error e, w') =>
        if isTimeout e then
          (do onFiles (·.removeIfPresent path); tryAcquire path seconds : Action Guard).outcome w'
        else (.error e, w') := by
  rw [acquire, outcome_tryCatch]
  rcases (tryAcquire path seconds).outcome w with ⟨r, w'⟩
  cases r with
  | ok g => rfl
  | error e =>
      simp only
      split
      · rfl
      · rfl

theorem acquire_taken (path : String) (seconds : Nat) (w : World) :
    Taken path w ((acquire path seconds).outcome w).1 ((acquire path seconds).outcome w).2 := by
  have hfirst := tryAcquire_taken path seconds w
  rw [outcome_acquire]
  rcases houtcome : (tryAcquire path seconds).outcome w with ⟨r, w'⟩
  rw [houtcome] at hfirst
  cases r with
  | ok g => exact hfirst
  | error e =>
      simp only
      split
      · have hremove := passes_removeIfPresent path w'
        rw [outcome_bind]
        rcases houtcome : (onFiles (·.removeIfPresent path)).outcome w' with ⟨r, w''⟩
        rw [houtcome] at hremove
        have hpasses := composes_passes.trans hfirst hremove
        cases r with
        | error e => exact hpasses
        | ok u => exact .after hpasses (tryAcquire_taken path seconds w'')
      · exact hfirst

end NetPool.Lock
