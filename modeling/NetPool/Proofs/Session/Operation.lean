import NetPool.Proofs.Action
import NetPool.Session

/-! # Operations of a session

An operation may change the session that it is an operation of, whether it succeeds or fails.
Acquiring and giving back change it only at the end, when nothing can fail any more. What they do to
the world can therefore be told without the session that they lead to. -/

namespace NetPool.Session

open NetPool.Effect NetPool.Action

variable {α : Type} {s s' : Session} {w w' : World}

namespace Operation

@[simp] theorem outcome_act (action : Session → Action α) (s : Session) (w : World) :
    (act action).outcome (s, w) = (((action s).outcome w).1, s, ((action s).outcome w).2) := rfl

@[simp] theorem outcome_changePending (f : List Asset → List Asset) (s : Session) (w : World) :
    (changePending f).outcome (s, w) = (.ok (), { s with pending := f s.pending }, w) := rfl

theorem outcome_acquire (s : Session) (w : World) :
    acquire.outcome (s, w) =
      match s.template.check with
      | .error fault => (.error (.template fault), s, w)
      | .ok t =>
        match (s.underLock (s.reserve t)).outcome w with
        | (.ok a, w') => (.ok a, { s with pending := s.pending ++ [a] }, w')
        | (.error e, w') => (.error e, s, w') := by
  rw [acquire, outcome_bind, outcome_act, outcome_observe]
  cases s.template.check with
  | error fault => rfl
  | ok t =>
      simp only [mapError_ok, outcome_bind, outcome_act]
      rcases (s.underLock (s.reserve t)).outcome w with ⟨_ | a, w'⟩
      · rfl
      · rfl

theorem outcome_releaseAll (s : Session) (w : World) :
    releaseAll.outcome (s, w) =
      if s.pending.isEmpty then (.ok 0, s, w)
      else
        match (s.underLock s.giveBack).outcome w with
        | (.ok n, w') => (.ok n, { s with pending := [] }, w')
        | (.error e, w') => (.error e, s, w') := by
  rw [releaseAll, outcome_bind_ok (outcome_get (s, w))]
  dsimp only
  split
  · rfl
  · simp only [outcome_bind, outcome_act]
    rcases (s.underLock s.giveBack).outcome w with ⟨_ | n, w'⟩
    · rfl
    · rfl

/-- An operation that fails leaves the session. -/
def SparesOnFailure (op : Operation α) : Prop :=
  ∀ {s w e s' w'}, op.outcome (s, w) = (.error e, s', w') → s' = s

theorem acquire_sparesOnFailure : SparesOnFailure acquire := by
  intro s w e s' w' h
  rw [outcome_acquire] at h
  split at h
  · cases h
    rfl
  · split at h
    · cases h
    · cases h
      rfl

theorem releaseAll_sparesOnFailure : SparesOnFailure releaseAll := by
  intro s w e s' w' h
  rw [outcome_releaseAll] at h
  split at h
  · cases h
  · split at h
    · cases h
    · cases h
      rfl

/-- What such an operation does is told by the action of the session. -/
theorem SparesOnFailure.outcome_eq {op : Operation α} (h : SparesOnFailure op) (s : Session)
    (w : World) :
    op.outcome (s, w) =
      match (op.actionOf s).outcome w with
      | (.ok (a, s'), w') => (.ok a, s', w')
      | (.error e, w') => (.error e, s, w') := by
  rw [actionOf, outcome_of]
  rcases houtcome : op.outcome (s, w) with ⟨e | a, s', w'⟩
  · rw [h houtcome]
  · rfl

end Operation

theorem acquire_eq (s : Session) : s.acquire = do
    let t ← Action.observe fun _ => s.template.check.mapError .template
    let asset ← s.underLock (s.reserve t)
    return (asset, { s with pending := s.pending ++ [asset] }) := by
  refine Effect.ext fun w => ?_
  rw [acquire, Operation.actionOf, outcome_of, Operation.outcome_acquire, outcome_bind,
    outcome_observe]
  cases s.template.check with
  | error fault => rfl
  | ok t =>
      simp only [mapError_ok, outcome_bind]
      rcases (s.underLock (s.reserve t)).outcome w with ⟨_ | a, w'⟩
      · rfl
      · rfl

theorem releaseAll_eq (s : Session) : s.releaseAll = do
    if s.pending.isEmpty then return (0, s)
    let removed ← s.underLock s.giveBack
    return (removed, { s with pending := [] }) := by
  refine Effect.ext fun w => ?_
  rw [releaseAll, Operation.actionOf, outcome_of, Operation.outcome_releaseAll]
  by_cases hnone : s.pending.isEmpty
  · simp only [if_pos hnone]
    rfl
  · simp only [if_neg hnone, outcome_bind]
    rcases (s.underLock s.giveBack).outcome w with ⟨_ | n, w'⟩
    · rfl
    · rfl

/-! ## What an acquisition leads to -/

theorem acquireMany_succ (s : Session) (count : Nat) (w : World) :
    s.acquireMany (count + 1) w =
      match s.acquire.outcome w with
      | (.error e, w') => (⟨s, [], some e⟩, w')
      | (.ok (a, s'), w') =>
        ({ (s'.acquireMany count w').1 with assets := a :: (s'.acquireMany count w').1.assets },
          (s'.acquireMany count w').2) := by
  rw [acquireMany, Operation.acquire_sparesOnFailure.outcome_eq, ← acquire]
  rcases s.acquire.outcome w with ⟨e | ⟨a, s'⟩, w'⟩
  · rfl
  · rfl

theorem session_of_acquire {a : Asset} {s' : Session}
    (h : s.acquire.outcome w = (.ok (a, s'), w')) : s' = { s with pending := s.pending ++ [a] } := by
  rw [acquire_eq, outcome_bind, outcome_observe] at h
  cases htemplate : s.template.check with
  | error e =>
      rw [htemplate] at h
      cases h
  | ok t =>
      rw [htemplate] at h
      simp only [mapError_ok, outcome_bind] at h
      rcases hlocked : (s.underLock (s.reserve t)).outcome w with ⟨e | b, w₁⟩
      · rw [hlocked] at h
        cases h
      · rw [hlocked] at h
        cases h
        rfl

/-- What does not depend on the pending entries and is kept by an acquisition is kept by several. -/
theorem acquireMany_keeps {P : Session → World → Prop}
    (hpending : ∀ {s w} entries, P s w → P { s with pending := entries } w)
    (hacquire : ∀ {s w}, P s w → P s (s.acquire.outcome w).2) (h : P s w) (count : Nat) :
    P (s.acquireMany count w).1.session (s.acquireMany count w).2 := by
  induction count generalizing s w with
  | zero => exact h
  | succ count ih =>
      have hfirst := hacquire h
      rw [acquireMany_succ]
      rcases houtcome : s.acquire.outcome w with ⟨e | ⟨a, s'⟩, w'⟩
      · rw [houtcome] at hfirst
        exact hfirst
      · rw [houtcome] at hfirst
        obtain rfl := session_of_acquire houtcome
        exact ih (hpending _ hfirst)

theorem settle_eq (s : Session) (w : World) :
    s.settle w =
      match s.releaseAll.outcome w with
      | (.ok (n, s'), w') => (.ok n, s', w')
      | (.error e, w') => (.error e, s, w') := by
  rw [settle, Operation.releaseAll_sparesOnFailure.outcome_eq, ← releaseAll]
  rcases s.releaseAll.outcome w with ⟨e | ⟨n, s'⟩, w'⟩
  · rfl
  · rfl

end NetPool.Session
