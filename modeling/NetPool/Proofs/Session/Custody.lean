import NetPool.Proofs.Session.Acquire
import NetPool.Proofs.Session.Visit

/-! # Locks of a session

Whether an operation succeeds or fails, and wherever it fails, its guard is gone when it returns. The
lock is free then if the operation could have it at all. -/

namespace NetPool.Session

open NetPool.Effect NetPool.Action FileSystem
open Lock (Custody Returns Free)

variable {s : Session} {w w' : World} {t : CheckedTemplate}

/-- The session has visited its ledger once. -/
def Visits (s : Session) (w w' : World) : Prop :=
  ∃ (α : Type) (plan : List Asset → Action (α × Option (List Asset))),
    (∀ es, Leads Aside (plan es)) ∧
      w' = ((s.underLock (visit (.direct s.ledgerPath) plan)).outcome w).2

theorem visits_acquire (htemplate : s.template.check = .ok t) (w : World) :
    Visits s w (s.acquire.outcome w).2 := by
  refine ⟨_, s.reserving t, aside_reserving s t, ?_⟩
  rw [acquire_eq, outcome_bind, outcome_observe, htemplate]
  simp only [mapError_ok, outcome_bind, reserve_eq]
  rcases (s.underLock (visit (.direct s.ledgerPath) (s.reserving t))).outcome w with ⟨e | a, w'⟩
  · rfl
  · rfl

theorem visits_releaseAll (hpending : s.pending ≠ []) (w : World) :
    Visits s w (s.releaseAll.outcome w).2 := by
  refine ⟨_, s.givingBack, aside_givingBack s, ?_⟩
  rw [releaseAll_eq, if_neg (by simpa using hpending), outcome_bind, giveBack_eq]
  rcases (s.underLock (visit (.direct s.ledgerPath) s.givingBack)).outcome w with ⟨e | n, w'⟩
  · rfl
  · rfl

theorem world_releaseAll_of_nil (hpending : s.pending = []) (w : World) :
    (s.releaseAll.outcome w).2 = w := by
  rw [releaseAll_eq, if_pos (by simp [hpending])]
  rfl

theorem visits_snapshot (s : Session) (w : World) : Visits s w (s.snapshot.outcome w).2 :=
  ⟨_, listing, aside_listing, by rw [← snapshotBy_direct, snapshotBy]⟩

theorem visits_reclaim (s : Session) (networkIf : String) (w : World) :
    Visits s w ((s.reclaim networkIf).outcome w).2 :=
  ⟨_, reclaiming networkIf, aside_reclaiming networkIf, by rw [reclaim_eq]⟩

/-! ## One visit -/

/-- However a visit ends, the guards are those from before. -/
theorem Visits.returns (hvisits : Visits s w w') (h : Custody w) : Returns w w' := by
  obtain ⟨α, plan, hplan, rfl⟩ := hvisits
  exact h.holding_returns (passes_visit s.ledgerPath hplan)

/-- Where the lock can be taken for a visit, it is free afterwards. -/
theorem Visits.free (hvisits : Visits s w w') (h : Custody w)
    (husable : Lock.Usable s.lockPath s.lockTimeoutSecs w) : Free s.lockPath w' := by
  have hcustody := h.returns (hvisits.returns h)
  obtain ⟨g, w₁, hlock⟩ := husable
  have htaken := Lock.acquire_taken s.lockPath s.lockTimeoutSecs w
  rw [hlock] at htaken
  obtain ⟨hgranted, hnamed⟩ := htaken
  obtain ⟨content, hlook⟩ := look_of_fileId hnamed
  obtain ⟨α, plan, hplan, rfl⟩ := hvisits
  -- Whoever comes next opens the file of the guard that is gone, or a new one if that was removed.
  have hreopens := reopens_visit hlook s.ledgerPath hplan
  have hfree := Lock.isHeld_release hgranted (passes_visit s.ledgerPath hplan w₁).guards
  rw [underLock, Lock.outcome_holding, hlock] at hcustody ⊢
  exact hcustody.free_of_reopens hreopens hfree

/-- A visit leaves a free lock free. -/
theorem Visits.free_of_free (hvisits : Visits s w w') (h : Custody w) (hfree : Free s.lockPath w) :
    Free s.lockPath w' := by
  cases hwait : w.canWait s.lockTimeoutSecs with
  | true => exact hvisits.free h (hfree.usable hwait)
  | false =>
      obtain ⟨α, plan, _, rfl⟩ := hvisits
      rw [underLock, Lock.outcome_holding, Lock.acquire_of_no_wait hwait]
      exact hfree

/-! ## Acquiring and giving back -/

theorem returns_acquire (s : Session) (h : Custody w) : Returns w (s.acquire.outcome w).2 := by
  cases htemplate : s.template.check with
  | ok t => exact (visits_acquire htemplate w).returns h
  | error e =>
      rw [outcome_acquire_of_fault htemplate]
      exact .refl w

theorem returns_releaseAll (s : Session) (h : Custody w) :
    Returns w (s.releaseAll.outcome w).2 := by
  by_cases hpending : s.pending = []
  · rw [world_releaseAll_of_nil hpending]
    exact .refl w
  · exact (visits_releaseAll hpending w).returns h

theorem free_acquire (h : Custody w) (hfree : Free s.lockPath w) :
    Free s.lockPath (s.acquire.outcome w).2 := by
  cases htemplate : s.template.check with
  | ok t => exact (visits_acquire htemplate w).free_of_free h hfree
  | error e => rwa [outcome_acquire_of_fault htemplate]

theorem free_releaseAll (h : Custody w) (hfree : Free s.lockPath w) :
    Free s.lockPath (s.releaseAll.outcome w).2 := by
  by_cases hpending : s.pending = []
  · rwa [world_releaseAll_of_nil hpending]
  · exact (visits_releaseAll hpending w).free_of_free h hfree

theorem returns_acquireMany (s : Session) (h : Custody w) (count : Nat) :
    Returns w (s.acquireMany count w).2 :=
  acquireMany_keeps (P := fun _ w' => Returns w w') (fun _ hreturns => hreturns)
    (fun hreturns => hreturns.trans (returns_acquire _ (h.returns hreturns))) (.refl w) count

/-- The lock is free between and after several acquisitions if it is before. -/
theorem free_acquireMany (h : Custody w) (hfree : Free s.lockPath w) (count : Nat) :
    (s.acquireMany count w).1.session.lockPath = s.lockPath ∧
      Free s.lockPath (s.acquireMany count w).2 := by
  have hkept := acquireMany_keeps (s := s) (w := w)
    (P := fun s' w' => s'.lockPath = s.lockPath ∧ Custody w' ∧ Free s'.lockPath w')
    (fun _ hkept => hkept)
    (fun ⟨hpath, h, hfree⟩ => ⟨hpath, h.returns (returns_acquire _ h), free_acquire h hfree⟩)
    ⟨rfl, h, hfree⟩ count
  obtain ⟨hpath, _, hfree'⟩ := hkept
  exact ⟨hpath, hpath ▸ hfree'⟩

/-- The first of several acquisitions leaves the lock free for those after it. -/
theorem free_acquireMany_of_usable (htemplate : s.template.check = .ok t) (h : Custody w)
    (husable : Lock.Usable s.lockPath s.lockTimeoutSecs w) (count : Nat) :
    (s.acquireMany (count + 1) w).1.session.lockPath = s.lockPath ∧
      Free s.lockPath (s.acquireMany (count + 1) w).2 := by
  have hfirst := (visits_acquire htemplate w).free h husable
  have hcustody := h.returns (returns_acquire s h)
  rw [acquireMany_succ]
  rcases houtcome : s.acquire.outcome w with ⟨e | ⟨a, s'⟩, w'⟩
  · rw [houtcome] at hfirst
    exact ⟨rfl, hfirst⟩
  · rw [houtcome] at hfirst hcustody
    obtain rfl := session_of_acquire houtcome
    exact @free_acquireMany { s with pending := s.pending ++ [a] } w' hcustody hfirst count

theorem world_settle (s : Session) (w : World) :
    (s.settle w).2.2 = (s.releaseAll.outcome w).2 := by
  rw [settle_eq]
  rcases s.releaseAll.outcome w with ⟨e | ⟨n, s'⟩, w'⟩
  · rfl
  · rfl

end NetPool.Session
