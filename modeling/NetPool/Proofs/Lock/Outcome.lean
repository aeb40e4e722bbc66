import NetPool.Proofs.Files.Growth
import NetPool.Proofs.Lock.Custody

/-! # How taking a lock ends

As long as nobody else acts, only one thing decides whether the lock of a path is free: whether
somebody holds the file that the path names once the directories above it are made. If so, the file is
left to its holder, and the lock is taken on a new one. -/

namespace NetPool.Lock

open NetPool.Effect NetPool.Action FileSystem

variable {path : String} {seconds : Nat} {w w' : World} {file : FileId} {g : Guard}

/-- The lock file can be opened, or made where there is none. -/
def Openable (path : String) (w : World) : Prop :=
  ∃ file w', (openFile path).outcome w = (.ok file, w')

/-- Somebody holds the file that the path names once the directories above it are made. -/
def Held (path : String) (w : World) : Prop :=
  ∃ g ∈ w.guards, (w.files.makeParents path).2.fileId path = .ok g.file

theorem isHeld_iff : w.isHeld file = true ↔ ∃ g ∈ w.guards, g.file = file := by
  simp [World.isHeld, List.any_eq_true]

theorem held_iff (h : (w.files.makeParents path).2.fileId path = .ok file) :
    Held path w ↔ w.isHeld file = true := by
  rw [Held, isHeld_iff, h]
  constructor
  · rintro ⟨g, hg, hfile⟩
    exact ⟨g, hg, (Except.ok.inj hfile).symm⟩
  · rintro ⟨g, hg, hfile⟩
    exact ⟨g, hg, by rw [hfile]⟩

/-- For a plain path, that is the file that it names now. -/
theorem held_iff_of_plain (hplain : Plain path) (hrooted : w.files.Rooted) :
    Held path w ↔ ∃ g ∈ w.guards, w.files.fileId path = .ok g.file := by
  simp only [Held, fileId_makeParents_of_plain hplain hrooted]

/-! ## Opening -/

theorem adds_openFile (path : String) (w : World) :
    Adds path w.files ((openFile path).outcome w).2.files := by
  have hparents := adds_makeParents w.files path
  rw [openFile, outcome_bind, outcome_changingFiles]
  cases (w.files.makeParents path).1 with
  | error e => exact hparents
  | ok u =>
      simp only [mapError_ok, outcome_of, World.withFiles]
      split
      · exact hparents
      · rename_i hopened
        exact hparents.trans (adds_openOrCreate hopened)

/-- How opening the lock file ends: with the file that the path names once the directories above it
are made, or with a new one. -/
inductive Opening (path : String) (w : World) : FileId → World → Prop
  | existing {file : FileId} (hnamed : (w.files.makeParents path).2.fileId path = .ok file) :
      Opening path w file (w.withFiles (w.files.makeParents path).2)
  | new {files : FileSystem}
      (hvacant : (w.files.makeParents path).2.node? (w.files.placeOf path) = none) :
      Opening path w w.files.nextId (w.withFiles files)

theorem opening_of_outcome (h : (openFile path).outcome w = (.ok file, w')) :
    Opening path w file w' := by
  rw [openFile, outcome_bind, outcome_changingFiles] at h
  cases hmade : (w.files.makeParents path).1 with
  | error e =>
      rw [hmade] at h
      cases h
  | ok u =>
      rw [hmade] at h
      simp only [mapError_ok, outcome_of, World.withFiles] at h
      rcases hopened : (w.files.makeParents path).2.openOrCreate path with e | ⟨q, file', files⟩
      · rw [hopened] at h
        cases h
      · have hnamed := fileId_of_openOrCreate hopened
        rw [hopened] at h
        cases h
        cases opens_of_openOrCreate hopened with
        | existing _ _ => exact .existing hnamed
        | new _ hnode =>
            rw [placeOf_eq_of_workDir (makeParents_kept w.files path).1] at hnode
            rw [nextId_makeParents]
            exact .new hnode

theorem not_held_of_vacant
    (h : (w.files.makeParents path).2.node? (w.files.placeOf path) = none) : ¬ Held path w := by
  rintro ⟨g, _, hnamed⟩
  obtain ⟨content, hnode⟩ := node?_of_fileId hnamed
  rw [placeOf_eq_of_workDir (makeParents_kept w.files path).1, h] at hnode
  cases hnode

/-! ## Asking for the lock -/

/-- The lock was taken without anything else being touched: missing directories and the lock file
are made, and what was there is as before. -/
structure TakenAside (path : String) (w : World) (g : Guard) (w' : World) : Prop where
  granted : Granted w g w'
  named : w'.files.fileId path = .ok g.file
  adds : Adds path w.files w'.files

theorem files_claim (file : FileId) (w : World) : ((claim file).outcome w).2.files = w.files := by
  rw [claim, outcome_of]
  split
  · rfl
  · rfl

/-- However asking for a lock ends, it only adds what is missing. -/
theorem adds_tryAcquire (path : String) (seconds : Nat) (w : World) :
    Adds path w.files ((tryAcquire path seconds).outcome w).2.files := by
  have hopened := adds_openFile path w
  rw [outcome_tryAcquire]
  split
  · rw [start, outcome_bind, outcome_bind]
    rcases houtcome : (openFile path).outcome w with ⟨r, w₁⟩
    rw [houtcome] at hopened
    cases r with
    | error e => exact hopened
    | ok file =>
        have hclaim := files_claim file w₁
        dsimp only
        rcases hclaimed : (claim file).outcome w₁ with ⟨r, w₂⟩
        rw [hclaimed] at hclaim
        rw [← hclaim] at hopened
        rcases r with e | ⟨g⟩ | ⟨file⟩
        · exact hopened
        · exact hopened
        · exact hopened
  · exact .refl path w.files

/-- The wait ends without a guard if the file is held when it is open. -/
theorem tryAcquire_of_open_held (hwait : w.canWait seconds = true)
    (hopen : (openFile path).outcome w = (.ok file, w')) (hheld : w'.isHeld file = true) :
    (tryAcquire path seconds).outcome w = (.error (.lockTimeout path seconds), w') := by
  have hstart := (outcome_bind_ok hopen claim).trans (outcome_claim_of_held hheld)
  rw [outcome_tryAcquire, if_pos hwait, start, outcome_bind_ok hstart]
  rfl

theorem tryAcquire_of_held_path (hwait : w.canWait seconds = true) (hopens : Openable path w)
    (hheld : Held path w) :
    (tryAcquire path seconds).outcome w =
      (.error (.lockTimeout path seconds), w.withFiles (w.files.makeParents path).2) := by
  obtain ⟨file, w', hopen⟩ := hopens
  cases opening_of_outcome hopen with
  | existing hnamed => exact tryAcquire_of_open_held hwait hopen ((held_iff hnamed).mp hheld)
  | new hvacant => exact absurd hheld (not_held_of_vacant hvacant)

theorem Custody.tryAcquire_of_not_held (h : Custody w) (hwait : w.canWait seconds = true)
    (hopens : Openable path w) (hfree : ¬ Held path w) :
    ∃ g w', (tryAcquire path seconds).outcome w = (.ok g, w') ∧ TakenAside path w g w' := by
  obtain ⟨file, w₁, hopen⟩ := hopens
  have htaken := tryAcquire_taken path seconds w
  have hadds := adds_tryAcquire path seconds w
  cases opening_of_outcome hopen with
  | existing hnamed =>
      have hopened : (w.withFiles (w.files.makeParents path).2).isHeld file = false :=
        Bool.eq_false_iff.mpr fun hheld => hfree ((held_iff hnamed).mpr hheld)
      have htry := tryAcquire_of_free hwait hopen hopened
      rw [htry] at htaken hadds
      exact ⟨_, _, htry, htaken.1, htaken.2, hadds⟩
  | new _ =>
      have htry := tryAcquire_of_free hwait hopen h.isHeld_nextId
      rw [htry] at htaken hadds
      exact ⟨_, _, htry, htaken.1, htaken.2, hadds⟩

/-! ## Breaking a lock -/

/-- The lock was taken on a new file, which took the place of the old one. All guards live on, but
no file that they hold is in that place any more. -/
structure Broken (path : String) (w : World) (g : Guard) (w' : World) : Prop where
  granted : Granted w g w'
  named : w'.files.fileId path = .ok g.file
  new : ¬ w.files.Linked g.file
  unlinked : ∀ g' ∈ w.guards, ∀ content,
    w'.files.node? (w.files.placeOf path) ≠ some (.file g'.file content)
  others : ∀ q, q ≠ w.files.placeOf path → Kept w.files w'.files q

/-- Who does not wait in vain does not break the lock. -/
theorem acquire_eq_tryAcquire
    (h : ∀ path' seconds', ((tryAcquire path seconds).outcome w).1 ≠
      .error (.lockTimeout path' seconds')) :
    (acquire path seconds).outcome w = (tryAcquire path seconds).outcome w := by
  rw [outcome_acquire]
  rcases houtcome : (tryAcquire path seconds).outcome w with ⟨r, w'⟩
  rw [houtcome] at h
  cases r with
  | ok g => rfl
  | error e =>
      cases e with
      | lockTimeout path' seconds' => exact absurd rfl (h path' seconds')
      | _ => rfl

/-- The directories that are made while waiting in vain make no difference to what comes after. -/
theorem acquire_after_parents (hwait : w.canWait seconds = true) (hopens : Openable path w)
    (hheld : Held path w) :
    (acquire path seconds).outcome w =
      (acquire path seconds).outcome (w.withFiles (w.files.makeParents path).2) := by
  have htimeout := tryAcquire_of_held_path hwait hopens hheld
  obtain ⟨g, hg, hnamed⟩ := hheld
  obtain ⟨content, hlook⟩ := look_of_fileId hnamed
  have hagain := tryAcquire_of_held (w := w.withFiles (w.files.makeParents path).2) hlook
    (isHeld_iff.mpr ⟨g, hg, rfl⟩) hwait
  rw [World.withFiles] at hagain
  simp only [makeParents_of_fileId hnamed] at hagain
  rw [outcome_acquire, outcome_acquire, htimeout]
  rw [World.withFiles, hagain]
  rfl

theorem Custody.acquire_of_held_path (h : Custody w) (hwait : w.canWait seconds = true)
    (hopens : Openable path w) (hheld : Held path w) (hremovable : w.files.Allows path none) :
    ∃ g w', (acquire path seconds).outcome w = (.ok g, w') ∧ Broken path w g w' := by
  have hremovable' := (sameRules_makeParents w.files path).allows hremovable
  have hacquire := acquire_after_parents hwait hopens hheld
  obtain ⟨g₀, hg₀, hnamed₀⟩ := hheld
  have hpasses := passes_makeParents path w
  rw [outcome_changingFiles] at hpasses
  obtain ⟨w', hbroken⟩ := (h.returns hpasses.returns).acquire_of_stale hg₀ hnamed₀ hwait hremovable'
  rw [hbroken] at hacquire
  have htaken := acquire_taken path seconds w
  have hconfined := confined_acquire path seconds w
  rw [hacquire] at htaken hconfined
  obtain ⟨hgranted, hnamed⟩ := htaken
  refine ⟨_, w', hacquire, hgranted, hnamed, fun hlinked => ?_, fun g' hg' content hnode => ?_,
    hconfined.kept⟩
  · exact Nat.lt_irrefl _ ((nextId_makeParents w.files path) ▸ h.numbered _ hlinked)
  · -- The path names the new file, which nobody held.
    obtain ⟨content', hplace⟩ := node?_of_fileId hnamed
    rw [placeOf_eq_of_workDir hconfined.workDir, hnode] at hplace
    have hfile : g'.file = w.files.nextId :=
      (Node.file.inj (Option.some.inj hplace)).1.trans (nextId_makeParents w.files path)
    exact Nat.lt_irrefl _ (hfile ▸ h.known g' hg')

/-- If the file must not be removed, it is left to its holder, and the lock is not taken. -/
theorem acquire_of_held_refused {r : Refusal} (hwait : w.canWait seconds = true)
    (hopens : Openable path w) (hheld : Held path w)
    (hrefused : w.files.refusal? (w.files.placeOf path) none = some r) :
    (acquire path seconds).outcome w =
      (.error (.io r.error), w.withFiles (w.files.makeParents path).2) := by
  have hrefused' := ((sameRules_makeParents w.files path).refusal?_placeOf path none).trans hrefused
  rw [acquire_after_parents hwait hopens hheld]
  obtain ⟨g, hg, hnamed⟩ := hheld
  obtain ⟨content, hlook⟩ := look_of_fileId hnamed
  have hsame : (w.withFiles (w.files.makeParents path).2).withFiles
      ((w.withFiles (w.files.makeParents path).2).files.makeParents path).2 =
        w.withFiles (w.files.makeParents path).2 := by
    rw [World.withFiles, World.withFiles, makeParents_of_fileId hnamed]
  have hfails := acquire_of_refused (w := w.withFiles (w.files.makeParents path).2) hlook
    (isHeld_iff.mpr ⟨g, hg, rfl⟩) hwait hrefused'
  rw [hsame] at hfails
  exact hfails

/-! ## What breaking a lock can destroy -/

theorem openFile_error {e : Error} (h : (openFile path).outcome w = (.error e, w')) :
    isTimeout e = false := by
  rw [openFile, outcome_bind, outcome_changingFiles] at h
  cases hmade : (w.files.makeParents path).1 with
  | error e' =>
      rw [hmade] at h
      cases h
      rfl
  | ok u =>
      rw [hmade] at h
      simp only [mapError_ok, outcome_of] at h
      split at h
      · cases h
        rfl
      · cases h

/-- Who waits in vain has opened a file that somebody holds. -/
theorem opening_of_timeout {e : Error} (h : (tryAcquire path seconds).outcome w = (.error e, w'))
    (htimeout : isTimeout e = true) : ∃ file w₁, Opening path w file w₁ ∧ w.isHeld file = true := by
  cases hwait : w.canWait seconds with
  | false =>
      rw [outcome_tryAcquire, hwait] at h
      cases h
      cases htimeout
  | true =>
      rcases hopen : (openFile path).outcome w with ⟨r, w₁⟩
      cases r with
      | error e' =>
          rw [outcome_tryAcquire, if_pos hwait, start,
            outcome_bind_error (outcome_bind_error hopen claim)] at h
          cases h
          rw [openFile_error hopen] at htimeout
          cases htimeout
      | ok file =>
          have hguards : w₁.guards = w.guards := by
            cases opening_of_outcome hopen with
            | existing _ => rfl
            | new _ => rfl
          refine ⟨file, w₁, opening_of_outcome hopen, ?_⟩
          cases hheld : w₁.isHeld file with
          | true => rwa [World.isHeld, ← hguards]
          | false =>
              rw [tryAcquire_of_free hwait hopen hheld] at h
              cases h

theorem isHeld_of_timeout {e : Error} {content : ByteArray}
    (h : (tryAcquire path seconds).outcome w = (.error e, w')) (htimeout : isTimeout e = true)
    (hnode : w.files.node? (w.files.placeOf path) = some (.file file content)) :
    w.isHeld file = true := by
  have hstays := (adds_makeParents w.files path).stays _ _ hnode
  obtain ⟨file', w₁, hopening, hheld⟩ := opening_of_timeout h htimeout
  cases hopening with
  | existing hnamed =>
      obtain ⟨content', hplace⟩ := node?_of_fileId hnamed
      rw [placeOf_eq_of_workDir (makeParents_kept w.files path).1, hstays] at hplace
      cases hplace
      exact hheld
  | new hvacant =>
      rw [hstays] at hvacant
      cases hvacant

/-- Taking a lock leaves a file to every path that names it, unless the file is in the place of the
lock and somebody holds it. -/
theorem look_after_acquire {other : String} {content : ByteArray}
    (hlook : w.files.look other = .ok (.file file content))
    (hspares : w.files.placeOf path = w.files.placeOf other → w.isHeld file = false) :
    ((acquire path seconds).outcome w).2.files.look other = .ok (.file file content) := by
  have hadds := adds_tryAcquire path seconds w
  rw [outcome_acquire]
  rcases houtcome : (tryAcquire path seconds).outcome w with ⟨r, w₁⟩
  rw [houtcome] at hadds
  have htried := hadds.look hlook
  cases r with
  | ok g => exact htried
  | error e =>
      dsimp only
      split
      · rename_i htimeout
        have hplace : w₁.files.placeOf path ≠ w₁.files.placeOf other := by
          rw [placeOf_eq_of_workDir hadds.workDir, placeOf_eq_of_workDir hadds.workDir]
          intro hsame
          obtain ⟨_, _, _, _, hnode⟩ := slot_of_look hlook
          rw [← hsame] at hnode
          have hheld := isHeld_of_timeout houtcome htimeout hnode
          rw [hspares hsame] at hheld
          cases hheld
        rw [outcome_bind, outcome_onFiles]
        split
        · rename_i u w₂ heq
          split at heq
          · rename_i hremove
            cases heq
            exact (adds_tryAcquire path seconds _).look (look_after_remove htried hremove hplace)
          · cases heq
        · rename_i heq
          split at heq
          · cases heq
          · cases heq
            exact htried
      · exact htried

/-! ## Letting go -/

/-- The world after letting go of guards, one after the other. -/
def letGo (gs : List Guard) (w : World) : World := gs.foldl World.release w

theorem letGo_cons (g : Guard) (gs : List Guard) (w : World) :
    letGo (g :: gs) w = letGo gs (w.release g) := rfl

theorem files_letGo (gs : List Guard) (w : World) : (letGo gs w).files = w.files := by
  induction gs generalizing w with
  | nil => rfl
  | cons g gs ih => exact ih (w.release g)

theorem canWait_letGo (gs : List Guard) (w : World) :
    (letGo gs w).canWait seconds = w.canWait seconds := by
  induction gs generalizing w with
  | nil => rfl
  | cons g gs ih => exact ih (w.release g)

theorem Custody.letGo (h : Custody w) (gs : List Guard) : Custody (letGo gs w) := by
  induction gs generalizing w with
  | nil => exact h
  | cons g gs ih => exact ih (h.release g)

/-- Exactly the guards that were not let go of are left. -/
theorem mem_letGo {gs : List Guard} :
    g ∈ (letGo gs w).guards ↔ g ∈ w.guards ∧ ∀ g' ∈ gs, g'.id ≠ g.id := by
  induction gs generalizing w with
  | nil => simp [letGo]
  | cons first gs ih =>
      rw [letGo_cons, ih, World.release, List.mem_filter, decide_eq_true_iff, and_assoc,
        List.forall_mem_cons]
      exact and_congr_right fun _ => and_congr_left fun _ => ne_comm

theorem Custody.free_iff (h : Custody w) (hwait : w.canWait seconds = true)
    (hopens : Openable path w) : Free path w ↔ ¬ Held path w := by
  constructor
  · intro hfree hheld
    obtain ⟨g, w', htry⟩ := hfree seconds hwait
    rw [tryAcquire_of_held_path hwait hopens hheld] at htry
    cases htry
  · intro hfree seconds' hwait'
    obtain ⟨g, w', htry, _⟩ := h.tryAcquire_of_not_held hwait' hopens hfree
    exact ⟨g, w', htry⟩

theorem Taken.canWait {r : Except Error Guard} (h : Taken path w r w') :
    w'.canWait seconds = w.canWait seconds := by
  cases r with
  | ok g => rw [World.canWait, World.canWait, h.1.uptime]
  | error e => rw [World.canWait, World.canWait, h.uptime]

/-- Without anybody else acting, asking for the lock of a path that can be opened fails exactly if a
guard holds the file that it names once the directories above it are made. Then nothing but these
directories is touched, which are none if it names a file already; otherwise what is missing is made
and the lock is taken. Whoever does not content himself with having waited takes the lock in any case,
on a new file if the other one is held, and leaves all guards alive. Only if the other file must not be
removed, he fails for that reason and leaves everything as it was after the wait. Whichever guards are
let go of afterwards, a path is free exactly if no guard that is left holds the file that it names. -/
theorem outcome_exact (path : String) {seconds : Nat} {w : World} (hcustody : Custody w)
    (hwait : w.canWait seconds = true) :
    (Openable path w →
      (Held path w → (tryAcquire path seconds).outcome w =
        (.error (.lockTimeout path seconds), w.withFiles (w.files.makeParents path).2)) ∧
      (¬ Held path w → ∃ g w', (tryAcquire path seconds).outcome w = (.ok g, w') ∧
        TakenAside path w g w') ∧
      (Held path w → w.files.Allows path none →
        ∃ g w', (acquire path seconds).outcome w = (.ok g, w') ∧ Broken path w g w') ∧
      (Held path w → ∀ r, w.files.refusal? (w.files.placeOf path) none = some r →
        (acquire path seconds).outcome w =
          (.error (.io r.error), w.withFiles (w.files.makeParents path).2))) ∧
    ((∀ path' seconds', ((tryAcquire path seconds).outcome w).1 ≠
        .error (.lockTimeout path' seconds')) →
      (acquire path seconds).outcome w = (tryAcquire path seconds).outcome w) ∧
    (∀ file, w.files.fileId path = .ok file →
      w.withFiles (w.files.makeParents path).2 = w ∧
        (Held path w ↔ ∃ g ∈ w.guards, g.file = file)) ∧
    (Plain path → w.files.Rooted →
      (Held path w ↔ ∃ g ∈ w.guards, w.files.fileId path = .ok g.file)) ∧
    ∀ w', (w' = ((tryAcquire path seconds).outcome w).2 ∨
        w' = ((acquire path seconds).outcome w).2) →
      ∀ gs, Custody (letGo gs w') ∧ (letGo gs w').files = w'.files ∧
        (∀ g, g ∈ (letGo gs w').guards ↔ g ∈ w'.guards ∧ ∀ g' ∈ gs, g'.id ≠ g.id) ∧
        ∀ other, Openable other (letGo gs w') →
          (Free other (letGo gs w') ↔ ¬ Held other (letGo gs w')) := by
  refine ⟨fun hopens => ⟨?_, ?_, ?_, ?_⟩, acquire_eq_tryAcquire, fun file hfile => ?_,
    held_iff_of_plain, fun w' hw' gs => ?_⟩
  · exact tryAcquire_of_held_path hwait hopens
  · exact hcustody.tryAcquire_of_not_held hwait hopens
  · exact hcustody.acquire_of_held_path hwait hopens
  · exact fun hheld r => acquire_of_held_refused hwait hopens hheld
  · have hsame := makeParents_of_fileId hfile
    rw [held_iff (hsame.symm ▸ hfile), isHeld_iff, hsame]
    exact ⟨rfl, Iff.rfl⟩
  · obtain ⟨r, htaken⟩ : ∃ r, Taken path w r w' := by
      rcases hw' with rfl | rfl
      · exact ⟨_, tryAcquire_taken path seconds w⟩
      · exact ⟨_, acquire_taken path seconds w⟩
    have hleft := (hcustody.taken htaken).letGo gs
    have hwait' : (letGo gs w').canWait seconds = true := by
      rw [canWait_letGo, htaken.canWait, hwait]
    exact ⟨hleft, files_letGo gs w', fun g => mem_letGo, fun other hopens =>
      hleft.free_iff hwait' hopens⟩

/-- A world in which the lock of a path is held. -/
def occupied (path : String) : World := ((acquire path 0).outcome (Session.quiet (.empty []))).2

theorem custody_occupied (path : String) : Custody (occupied path) :=
  (custody_of_no_guards rfl (numbered_empty [])).taken (acquire_taken path 0 _)

/-- The same world, but no file can be changed. -/
def sealOff (w : World) : World :=
  w.withFiles { w.files with refusal? := fun _ _ => some .readOnly }

theorem Custody.sealOff (h : Custody w) : Custody (sealOff w) :=
  ⟨h.numbered, h.distinct, h.below, h.known⟩

/-- A lock that is held times out, or is broken unless its file must not be removed, and another lock
can be had meanwhile. -/
theorem outcome_exact_occupied :
    (tryAcquire "l" 0).outcome (occupied "l") = (.error (.lockTimeout "l" 0), occupied "l") ∧
      (∃ g w', (tryAcquire "m/l" 0).outcome (occupied "l") = (.ok g, w') ∧
        TakenAside "m/l" (occupied "l") g w') ∧
      ∃ g w', (acquire "l" 0).outcome (occupied "l") = (.ok g, w') ∧ Broken "l" (occupied "l") g w' ∧
        ¬ Free "l" w' ∧ Free "l" (w'.release g) ∧
          (acquire "l" 0).outcome (sealOff (occupied "l")) =
            (.error (.io .readOnly), sealOff (occupied "l")) := by
  have hheld : Held "l" (occupied "l") := ⟨⟨0, 0⟩, List.mem_singleton_self _, rfl⟩
  have hfree : ¬ Held "m/l" (occupied "l") := fun ⟨g, _, hfile⟩ => nomatch hfile
  obtain ⟨w', hacquire, hguards, hnamed, hopens, hopens'⟩ :
      ∃ w', (acquire "l" 0).outcome (occupied "l") = (.ok ⟨1, 1⟩, w') ∧
        w'.guards = [⟨1, 1⟩, ⟨0, 0⟩] ∧ (w'.files.makeParents "l").2.fileId "l" = .ok 1 ∧
        Openable "l" w' ∧ Openable "l" (w'.release ⟨1, 1⟩) :=
    ⟨_, rfl, rfl, rfl, ⟨_, _, rfl⟩, _, _, rfl⟩
  obtain ⟨houtcome, _, _, _, hafter⟩ :=
    @outcome_exact "l" 0 (occupied "l") (custody_occupied "l") rfl
  obtain ⟨hwaits, _, hbreaks, _⟩ := houtcome ⟨_, _, rfl⟩
  obtain ⟨_, htakes, _⟩ :=
    (@outcome_exact "m/l" 0 (occupied "l") (custody_occupied "l") rfl).1 ⟨_, _, rfl⟩
  obtain ⟨g, w₁, hacquire', hbroken⟩ := hbreaks hheld rfl
  rw [hacquire] at hacquire' hafter
  cases hacquire'
  obtain ⟨hopen, _⟩ := @outcome_exact "l" 0 _ (custody_occupied "l").sealOff rfl
  obtain ⟨_, _, _, hrefused⟩ := hopen ⟨_, _, rfl⟩
  refine ⟨hwaits hheld, htakes hfree, _, w', hacquire, hbroken, ?_, ?_, hrefused hheld _ rfl⟩
  · obtain ⟨_, _, _, hiff⟩ := hafter w' (.inr rfl) []
    exact fun h => (hiff "l" hopens).mp h ⟨⟨1, 1⟩, hguards ▸ List.mem_cons_self, hnamed⟩
  · obtain ⟨_, _, hleft, hiff⟩ := hafter w' (.inr rfl) [⟨1, 1⟩]
    refine (hiff "l" hopens').mpr fun ⟨g, hg, hfile⟩ => ?_
    obtain ⟨hmem, hid⟩ := (hleft g).mp hg
    rw [hguards] at hmem
    rcases List.mem_cons.mp hmem with rfl | hmem
    · exact hid _ (List.mem_singleton_self _) rfl
    · obtain rfl := List.mem_singleton.mp hmem
      rw [files_letGo, hnamed] at hfile
      cases hfile

/-- Of a path that leads through a missing directory, the file is not there until the directory is
made. If somebody holds it then, asking for the lock fails, although the path named nothing before,
and the directory stays. -/
theorem missing_path_is_held :
    (occupied "l").files.look "x/../l" = .error .notFound ∧ Openable "x/../l" (occupied "l") ∧
      (occupied "l").files.isPresent "x" = false ∧
      ((tryAcquire "x/../l" 0).outcome (occupied "l")).1 = .error (.lockTimeout "x/../l" 0) ∧
      ((tryAcquire "x/../l" 0).outcome (occupied "l")).2.files.isPresent "x" = true :=
  ⟨rfl, ⟨_, _, rfl⟩, rfl, rfl, rfl⟩

end NetPool.Lock
