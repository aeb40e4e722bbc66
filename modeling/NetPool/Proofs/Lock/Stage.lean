import NetPool.Proofs.Lock.Grant

/-! # Calls for locks

A call for a lock goes through stages, and others may act between any two of them. Whatever moves it
on, it gets one guard at most, and it comes to hold that guard only when the path names the file. -/

namespace NetPool.Lock

open NetPool.Effect NetPool.Action FileSystem

/-- How far a call for a lock has come. A call that `breaks` removes the lock file when its wait is
over and asks once more. -/
inductive Stage where
  | idle
  | opening (path : String) (breaks : Bool)
  /-- The file is open. Somebody may hold it. -/
  | waiting (path : String) (breaks : Bool) (file : FileId)
  /-- The open file is held. The path need not name it any more. -/
  | checking (path : String) (breaks : Bool) (g : Guard)
  | holding (path : String) (g : Guard)

namespace Stage

/-- The guard that a call has, be it of use or not. -/
def guard? : Stage → Option Guard
  | .checking _ _ g | .holding _ g => some g
  | .idle | .opening .. | .waiting .. => none

/-- The file that a call waits on. -/
def file? : Stage → Option FileId
  | .waiting _ _ file => some file
  | .idle | .opening .. | .checking .. | .holding .. => none

theorem file?_of_guard? {stage : Stage} {g : Guard} (h : stage.guard? = some g) :
    stage.file? = none := by
  cases stage with
  | waiting path breaks file => cases h
  | _ => rfl

/-- The stage that an attempt leads to. -/
def ofAttempt (path : String) (breaks : Bool) : Attempt → Stage
  | .granted g => .holding path g
  | .waiting file => .waiting path breaks file

/-- Tries once more while nobody else acts. -/
def attempt : Stage → Action Stage
  | .opening path breaks => return .ofAttempt path breaks (← start path)
  | .waiting path breaks file => return .ofAttempt path breaks (← retry path file)
  | stage => return stage

/-- Keeps a guard if the path still names its file. Otherwise the file is to be opened again. -/
def check (path : String) (breaks : Bool) (g : Guard) : Action Stage := do
  try
    if ← names path g.file then return .holding path g
    release g
    return .opening path breaks
  catch e =>
    release g
    throw e

/-- Does the next single step. -/
def advance : Stage → Action Stage
  | .opening path breaks => return .waiting path breaks (← openFile path)
  | .waiting path breaks file => do
    match ← claim file with
    | .granted g => return .checking path breaks g
    | .waiting file => return .waiting path breaks file
  | .checking path breaks g => check path breaks g
  | stage => return stage

/-- Ends the wait. -/
def expire : Stage → Action Stage
  | .waiting path true _ => do
    Action.onFiles (·.removeIfPresent path)
    return .opening path false
  | .waiting _ false _ => return .idle
  | stage => return stage

/-- Lets go of the guard, or gives up. -/
def drop : Stage → Action Stage
  | .checking _ _ g | .holding _ g => do
    release g
    return .idle
  | .idle | .opening .. | .waiting .. => return .idle

end Stage

/-- What a call does next. Locks are taken at one go, or in steps from a `call` on. -/
inductive Move where
  | tryAcquire (path : String) (seconds : Nat)
  | acquire (path : String) (seconds : Nat)
  | call (path : String) (breaks : Bool)
  | attempt
  | advance
  | expire
  | drop

namespace Move

/-- What is done at a stage. Nothing new is begun before the last call has ended. -/
def run : Move → Stage → Action Stage
  | .tryAcquire path seconds, .idle => return .holding path (← Lock.tryAcquire path seconds)
  | .acquire path seconds, .idle => return .holding path (← Lock.acquire path seconds)
  | .call path breaks, .idle => return .opening path breaks
  | .attempt, stage => stage.attempt
  | .advance, stage => stage.advance
  | .expire, stage => stage.expire
  | .drop, stage => stage.drop
  | _, stage => return stage

/-- The stage and the world after a move. A failure ends the call. -/
def next (m : Move) (stage : Stage) (w : World) : Stage × World :=
  match (m.run stage).outcome w with
  | (.ok stage, w) => (stage, w)
  | (.error _, w) => (.idle, w)

end Move

/-! ## What a move can do -/

/-- A move waits, takes a new guard, keeps the guard there is, or lets go of it. A guard is held from
a moment on at which the path names its file. -/
inductive Moves (stage : Stage) (w : World) : Stage → World → Prop
  | waits {stage' w'} (hbefore : stage.guard? = none) (hafter : stage'.guard? = none)
      (hpasses : Passes w w')
      (hfile : ∀ file, stage'.file? = some file → stage.file? = some file ∨ w'.files.Linked file) :
      Moves stage w stage' w'
  | takes {stage' g w'} (hbefore : stage.guard? = none) (hafter : stage'.guard? = some g)
      (hgranted : Granted w g w')
      (hnamed : ∀ path, stage' = .holding path g → w'.files.fileId path = .ok g.file) :
      Moves stage w stage' w'
  | keeps {stage' g} (hbefore : stage.guard? = some g) (hafter : stage'.guard? = some g)
      (hnamed : ∀ path, stage' = .holding path g →
        stage = .holding path g ∨ w.files.fileId path = .ok g.file) :
      Moves stage w stage' w
  | releases {stage' g} (hbefore : stage.guard? = some g) (hafter : stage'.guard? = none)
      (hfile : stage'.file? = none) : Moves stage w stage' (w.release g)

/-- How a move ends. -/
def Ends (stage : Stage) (w : World) : Except Error Stage → World → Prop
  | .ok stage', w' => Moves stage w stage' w'
  | .error _, w' => Moves stage w .idle w'

variable {stage : Stage} {w w' : World} {path : String} {breaks : Bool}

theorem Moves.unchanged (stage : Stage) (w : World) : Moves stage w stage w := by
  cases hguard : stage.guard? with
  | none => exact .waits hguard hguard (composes_passes.refl w) fun _ => .inl
  | some g => exact .keeps hguard hguard fun _ => .inl

theorem Moves.toIdle (h : stage.guard? = none) (hpasses : Passes w w') : Moves stage w .idle w' :=
  .waits h rfl hpasses nofun

theorem outcome_return {α β : Type} (a : Action α) (f : α → β) (w : World) :
    (do return f (← a) : Action β).outcome w =
      match a.outcome w with
      | (.ok x, w') => (.ok (f x), w')
      | (.error e, w') => (.error e, w') := by
  rw [outcome_bind]
  rcases a.outcome w with ⟨_ | _, _⟩
  · rfl
  · rfl

theorem ends_taken (h : stage.guard? = none) {take : Action Guard}
    (htaken : Taken path w (take.outcome w).1 (take.outcome w).2) :
    Ends stage w ((do return .holding path (← take) : Action Stage).outcome w).1
      ((do return .holding path (← take) : Action Stage).outcome w).2 := by
  rw [outcome_return]
  rcases houtcome : take.outcome w with ⟨r, w'⟩
  rw [houtcome] at htaken
  cases r with
  | error e => exact .toIdle h htaken
  | ok g =>
      refine .takes h rfl htaken.1 fun path' heq => ?_
      cases heq
      exact htaken.2

theorem ends_attempted (h : stage.guard? = none) {action : Action Attempt}
    (hattempted : Attempted path w (action.outcome w).1 (action.outcome w).2) :
    Ends stage w ((do return .ofAttempt path breaks (← action) : Action Stage).outcome w).1
      ((do return .ofAttempt path breaks (← action) : Action Stage).outcome w).2 := by
  rw [outcome_return]
  rcases houtcome : action.outcome w with ⟨r, w'⟩
  rw [houtcome] at hattempted
  cases r with
  | error e => exact .toIdle h hattempted
  | ok attempt =>
      cases attempt with
      | granted g =>
          refine .takes h rfl hattempted.1 fun path' heq => ?_
          cases heq
          exact hattempted.2
      | waiting file =>
          refine .waits h rfl hattempted.1 fun file' hfile => ?_
          cases hfile
          exact .inr hattempted.2

theorem attempt_ends (stage : Stage) (w : World) :
    Ends stage w (stage.attempt.outcome w).1 (stage.attempt.outcome w).2 := by
  cases stage with
  | opening path breaks => exact ends_attempted rfl (start_attempted path w)
  | waiting path breaks file =>
      rcases retry_attempted path file w with hwaiting | hattempted
      · rw [Stage.attempt, outcome_return, hwaiting]
        exact .unchanged _ w
      · exact ends_attempted rfl hattempted
  | _ => exact .unchanged _ w

theorem outcome_check (path : String) (breaks : Bool) (g : Guard) (w : World) :
    (Stage.check path breaks g).outcome w =
      match ((names path g.file).outcome w).1 with
      | .ok true => (.ok (.holding path g), w)
      | .ok false => (.ok (.opening path breaks), w.release g)
      | .error e => (.error e, w.release g) := by
  obtain ⟨r, houtcome, _⟩ := outcome_names path g.file w
  rw [Stage.check]
  simp only [outcome_tryCatch, outcome_bind, houtcome]
  rcases r with e | _ | _
  · rfl
  · rfl
  · rfl

theorem check_ends (path : String) (breaks : Bool) (g : Guard) (w : World) :
    Ends (.checking path breaks g) w ((Stage.check path breaks g).outcome w).1
      ((Stage.check path breaks g).outcome w).2 := by
  obtain ⟨r, houtcome, hnamed⟩ := outcome_names path g.file w
  rw [outcome_check, houtcome]
  rcases r with e | _ | _
  · exact .releases rfl rfl rfl
  · exact .releases rfl rfl rfl
  · refine .keeps rfl rfl fun path' heq => ?_
    cases heq
    exact .inr (hnamed rfl)

/-- Three steps one after the other. -/
def Stage.advanceThrice (stage : Stage) : Action Stage := do
  let opened ← stage.advance
  let claimed ← opened.advance
  claimed.advance

/-- While nobody else acts, three steps of a new call are what an attempt does. -/
theorem outcome_advance_opening (path : String) (breaks : Bool) (w : World) :
    (Stage.opening path breaks).advanceThrice.outcome w =
      (Stage.opening path breaks).attempt.outcome w := by
  have hopened := openFile_opened path w
  rw [Stage.advanceThrice, outcome_bind, Stage.advance, outcome_return, Stage.attempt, outcome_return,
    start, outcome_bind]
  rcases houtcome : (openFile path).outcome w with ⟨r, w'⟩
  rw [houtcome] at hopened
  cases r with
  | error e => rfl
  | ok file =>
      have hnamed : w'.files.fileId path = .ok file := hopened.2
      -- The path names the file that was just opened, so the check cannot fail.
      simp only [outcome_bind, Stage.advance]
      cases hheld : w'.isHeld file with
      | true =>
          rw [outcome_claim_of_held hheld]
          simp only [outcome_pure, outcome_bind, outcome_claim_of_held hheld]
          rfl
      | false =>
          have hnamed' : (w'.grant file).2.files.fileId path = .ok (w'.grant file).1.file := hnamed
          rw [outcome_claim_of_free hheld]
          simp only [outcome_pure, outcome_check, outcome_names_of_fileId hnamed']
          rfl

theorem advance_ends (stage : Stage) (w : World) :
    Ends stage w (stage.advance.outcome w).1 (stage.advance.outcome w).2 := by
  cases stage with
  | opening path breaks =>
      have hopened := openFile_opened path w
      rw [Stage.advance, outcome_return]
      rcases houtcome : (openFile path).outcome w with ⟨r, w'⟩
      rw [houtcome] at hopened
      cases r with
      | error e => exact .toIdle rfl hopened
      | ok file =>
          refine .waits rfl rfl hopened.1 fun file' hfile => ?_
          cases hfile
          exact .inr (linked_of_fileId hopened.2)
  | waiting path breaks file =>
      rw [Stage.advance, outcome_bind]
      cases hheld : w.isHeld file with
      | true =>
          rw [outcome_claim_of_held hheld]
          exact .unchanged _ w
      | false =>
          rw [outcome_claim_of_free hheld]
          exact .takes rfl rfl (granted_grant hheld) nofun
  | checking path breaks g => exact check_ends path breaks g w
  | _ => exact .unchanged _ w

theorem expire_ends (stage : Stage) (w : World) :
    Ends stage w (stage.expire.outcome w).1 (stage.expire.outcome w).2 := by
  cases stage with
  | waiting path breaks file =>
      cases breaks with
      | false => exact .toIdle rfl (composes_passes.refl w)
      | true =>
          have hremove := passes_removeIfPresent path w
          rw [Stage.expire, outcome_bind]
          rcases houtcome : (onFiles (·.removeIfPresent path)).outcome w with ⟨r, w'⟩
          rw [houtcome] at hremove
          cases r with
          | error e => exact .toIdle rfl hremove
          | ok u => exact .waits rfl rfl hremove nofun
  | _ => exact .unchanged _ w

theorem drop_ends (stage : Stage) (w : World) :
    Ends stage w (stage.drop.outcome w).1 (stage.drop.outcome w).2 := by
  cases stage with
  | checking path breaks g => exact .releases rfl rfl rfl
  | holding path g => exact .releases rfl rfl rfl
  | _ => exact .toIdle rfl (composes_passes.refl w)

theorem run_ends (m : Move) (stage : Stage) (w : World) :
    Ends stage w ((m.run stage).outcome w).1 ((m.run stage).outcome w).2 := by
  cases m with
  | tryAcquire path seconds =>
      cases stage with
      | idle => exact ends_taken rfl (tryAcquire_taken path seconds w)
      | _ => exact .unchanged _ w
  | acquire path seconds =>
      cases stage with
      | idle => exact ends_taken rfl (acquire_taken path seconds w)
      | _ => exact .unchanged _ w
  | call path breaks =>
      cases stage with
      | idle => exact .waits rfl rfl (composes_passes.refl w) nofun
      | _ => exact .unchanged _ w
  | attempt => exact attempt_ends stage w
  | advance => exact advance_ends stage w
  | expire => exact expire_ends stage w
  | drop => exact drop_ends stage w

/-- Whatever is done at a stage, no more is done than a move can do. -/
theorem next_moves (m : Move) (stage : Stage) (w : World) :
    Moves stage w (m.next stage w).1 (m.next stage w).2 := by
  have hends := run_ends m stage w
  rw [Move.next]
  rcases houtcome : (m.run stage).outcome w with ⟨r, w'⟩
  rw [houtcome] at hends
  cases r with
  | error e => exact hends
  | ok stage' => exact hends

end NetPool.Lock
