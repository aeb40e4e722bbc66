import NetPool.Proofs.Pool.Failure
import NetPool.Proofs.Session.Custody

/-! # Locks of a pool

Sessions share a ledger with others that take and let go of the same locks. No operation leaves a
guard behind, takes one from anybody, or gets at the ledger without one. -/

namespace NetPool.Pool

open NetPool.Effect NetPool.Action
open Lock (Custody Returns Free)
open Session (Access Indifferent Visits Guarded)

variable {ι : Type} [DecidableEq ι] {p : Pool ι} {i : ι} {op : Op ι}

/-! ## What others do -/

/-- What can happen around a lock. Besides what happens to a pool, anybody may take a lock, be it by
breaking it, and let go of a guard. -/
inductive Act (ι : Type) : Type 1 where
  | does (op : Op ι)
  | takes (path : String) (seconds : Nat) (breaks : Bool)
  | drops (g : Guard)

/-- The pool after something has happened. -/
def act (p : Pool ι) : Act ι → Pool ι
  | .does op => p.step op
  | .takes path seconds breaks =>
    let take := if breaks then Lock.acquire path seconds else Lock.tryAcquire path seconds
    ⟨p.sessions, (take.outcome p.world).2⟩
  | .drops g => ⟨p.sessions, p.world.release g⟩

/-- The pool after several things have happened in order. -/
def acts (p : Pool ι) (happened : List (Act ι)) : Pool ι := happened.foldl act p

/-- Neither the body of a scoped use nor anything outside makes two guards of one file. -/
def Op.Careful : Op ι → Prop
  | .borrow _ _ body => ∀ assets w, Custody w → Custody ((body assets).outcome w).2
  | .outside f => ∀ w, Custody w → Custody (f w)
  | _ => True

def Act.Careful : Act ι → Prop
  | .does op => op.Careful
  | .takes .. | .drops _ => True

/-! ## Single operations -/

/-- The operation is one of the session's own, and it cannot do without the lock. -/
def NeedsLock (p : Pool ι) (i : ι) : Op ι → Prop
  | .acquire j => j = i ∧ ∃ t, (p.sessions j).template.check = .ok t
  | .releaseAll j => j = i ∧ (p.sessions j).pending ≠ []
  | .reclaim j _ | .snapshot j => j = i
  | .borrow .. | .rescan .. | .outside _ => False

/-- What an operation does to the world is told by the action of the session. -/
theorem world_perform {α : Type} (p : Pool ι) (i : ι) (op : Session.Operation α) :
    (p.perform i op).2.world = ((op.actionOf (p.sessions i)).outcome p.world).2 := by
  rw [perform, Session.Operation.actionOf, outcome_of]
  rcases op.outcome (p.sessions i, p.world) with ⟨e | a, s, w⟩
  · rfl
  · rfl

theorem visits_of_needsLock (h : p.NeedsLock i op) :
    Visits (p.sessions i) p.world (p.step op).world := by
  cases op with
  | acquire j =>
      obtain ⟨rfl, t, htemplate⟩ := h
      rw [step, world_perform]
      exact Session.visits_acquire htemplate p.world
  | releaseAll j =>
      obtain ⟨rfl, hpending⟩ := h
      rw [step, world_perform]
      exact Session.visits_releaseAll hpending p.world
  | reclaim j networkIf =>
      obtain rfl : j = i := h
      rw [step, perform_act]
      exact Session.visits_reclaim (p.sessions j) networkIf p.world
  | snapshot j =>
      obtain rfl : j = i := h
      rw [step, perform_act]
      exact Session.visits_snapshot (p.sessions j) p.world
  | _ => cases h

theorem returns_of_by (h : Custody p.world) (hby : op.By i) :
    Returns p.world (p.step op).world := by
  cases op with
  | acquire j =>
      rw [step, world_perform]
      exact Session.returns_acquire _ h
  | releaseAll j =>
      rw [step, world_perform]
      exact Session.returns_releaseAll _ h
  | reclaim j networkIf =>
      rw [step, perform_act]
      exact (Session.visits_reclaim (p.sessions j) networkIf p.world).returns h
  | snapshot j =>
      rw [step, perform_act]
      exact (Session.visits_snapshot (p.sessions j) p.world).returns h
  | _ => cases hby

/-! ## Scoped use -/

/-- What a scoped use comes to: some acquisitions, what its body does, and giving back. -/
def partsOfUse {α : Type} (i : ι) (attempts : Nat) (body : List Asset → Action α)
    (q : Session.Progress) : List (Act ι) :=
  List.replicate attempts (.does (.acquire i)) ++
    [.does (.outside (bodyEnd body q)), .does (.releaseAll i)]

theorem acts_append (p : Pool ι) (past future : List (Act ι)) :
    p.acts (past ++ future) = (p.acts past).acts future :=
  List.foldl_append

theorem acquireMany_acts (p : Pool ι) (i : ι) (count : Nat) :
    ∃ attempts ≤ count, p.acts (List.replicate attempts (.does (.acquire i))) =
      p.put i ((p.sessions i).acquireMany count p.world).1.session
        ((p.sessions i).acquireMany count p.world).2 := by
  induction count generalizing p with
  | zero => exact ⟨0, Nat.le_refl 0, by rw [Session.acquireMany, put_self]; rfl⟩
  | succ count ih =>
      have hstep : p.act (.does (.acquire i)) = (p.perform i .acquire).2 := rfl
      rw [perform] at hstep
      rw [Session.acquireMany]
      rcases houtcome : Effect.outcome Session.Operation.acquire (p.sessions i, p.world) with
        ⟨e | a, s, w⟩
      · rw [houtcome] at hstep
        exact ⟨1, Nat.succ_pos count, hstep⟩
      · rw [houtcome] at hstep
        -- The next acquisitions start from the pool that the first one has led to.
        obtain ⟨attempts, hle, hrest⟩ := ih (p.put i s w)
        rw [sessions_put_self, put_put] at hrest
        refine ⟨attempts + 1, Nat.succ_le_succ hle, ?_⟩
        rw [List.replicate_succ, acts, List.foldl_cons, hstep]
        exact hrest

/-- What a scoped use with enough memory comes to. -/
theorem borrow_acts {α : Type} {count : Nat} (hmemory : p.world.canHold count = true) (i : ι)
    (body : List Asset → Action α) :
    ∃ attempts ≤ count, p.step (.borrow i count body) =
      p.acts (partsOfUse i attempts body ((p.sessions i).acquireMany count p.world).1) := by
  obtain ⟨attempts, hle, hmany⟩ := acquireMany_acts p i count
  refine ⟨attempts, hle, ?_⟩
  rw [partsOfUse, acts_append, hmany, step_borrow hmemory]
  rcases (p.sessions i).acquireMany count p.world with ⟨q, w⟩
  -- Giving back is what a session does anyway, be it in the pool that the body has led to.
  have hrelease : (p.put i q.session (bodyEnd body q w)).act (.does (.releaseAll i)) =
      ((p.put i q.session (bodyEnd body q w)).perform i .releaseAll).2 := rfl
  rw [perform, sessions_put_self] at hrelease
  simp only [put_put] at hrelease
  exact hrelease.symm

section Body

variable {α : Type} {count : Nat} {body : List Asset → Action α}

omit [DecidableEq ι] in
theorem custody_bodyEnd (hcareful : (Op.borrow i count body).Careful) (q : Session.Progress)
    {w : World} (h : Custody w) : Custody (bodyEnd body q w) := by
  rw [bodyEnd]
  cases q.failure with
  | some e => exact h
  | none => exact hcareful q.assets w h

omit [DecidableEq ι] in
theorem partsOfUse_careful (hcareful : (Op.borrow i count body).Careful) (attempts : Nat)
    (q : Session.Progress) : ∀ a ∈ partsOfUse i attempts body q, a.Careful := by
  intro a ha
  rcases List.mem_append.mp ha with ha | ha
  · obtain rfl := List.eq_of_mem_replicate ha
    trivial
  · rcases List.mem_cons.mp ha with rfl | ha
    · exact fun w => custody_bodyEnd hcareful q
    · obtain rfl := List.mem_singleton.mp ha
      trivial

theorem world_borrow (hmemory : p.world.canHold count = true) (i : ι) (body : List Asset → Action α) :
    (p.step (.borrow i count body)).world =
      (((p.sessions i).acquireMany count p.world).1.session.releaseAll.outcome
        (bodyEnd body ((p.sessions i).acquireMany count p.world).1
          ((p.sessions i).acquireMany count p.world).2)).2 := by
  rw [← Session.world_settle, step_borrow hmemory]
  rfl

omit [DecidableEq ι] in
theorem custody_use (h : Custody p.world) (hcareful : (Op.borrow i count body).Careful) :
    Custody (bodyEnd body ((p.sessions i).acquireMany count p.world).1
      ((p.sessions i).acquireMany count p.world).2) :=
  custody_bodyEnd hcareful _ (h.returns (Session.returns_acquireMany (p.sessions i) h count))

/-- Giving back at the end of a scoped use leaves the guards that there are by then. -/
theorem returns_borrow (hmemory : p.world.canHold count = true) (h : Custody p.world)
    (hcareful : (Op.borrow i count body).Careful) :
    Returns (bodyEnd body ((p.sessions i).acquireMany count p.world).1
      ((p.sessions i).acquireMany count p.world).2) (p.step (.borrow i count body)).world := by
  rw [world_borrow hmemory]
  exact Session.returns_releaseAll _ (custody_use h hcareful)

/-- Giving back at the end of a scoped use leaves a free lock free. -/
theorem free_borrow {t : CheckedTemplate} (hmemory : p.world.canHold (count + 1) = true)
    (h : Custody p.world)
    (hcareful : (Op.borrow i (count + 1) body).Careful)
    (htemplate : (p.sessions i).template.check = .ok t)
    (husable : Lock.Usable (p.sessions i).lockPath (p.sessions i).lockTimeoutSecs p.world)
    (hfree : Free (p.sessions i).lockPath
      (bodyEnd body ((p.sessions i).acquireMany (count + 1) p.world).1
        ((p.sessions i).acquireMany (count + 1) p.world).2)) :
    Free (p.sessions i).lockPath (p.step (.borrow i (count + 1) body)).world := by
  obtain ⟨hpath, _⟩ := Session.free_acquireMany_of_usable htemplate h husable count
  rw [world_borrow hmemory]
  rw [← hpath] at hfree ⊢
  exact Session.free_releaseAll (custody_use h hcareful) hfree

end Body

/-! ## Runs -/

theorem custody_step (h : Custody p.world) (hcareful : op.Careful) :
    Custody (p.step op).world := by
  cases op with
  | acquire j => exact h.returns (returns_of_by h (i := j) rfl)
  | releaseAll j => exact h.returns (returns_of_by h (i := j) rfl)
  | reclaim j networkIf => exact h.returns (returns_of_by h (i := j) rfl)
  | snapshot j => exact h.returns (returns_of_by h (i := j) rfl)
  | borrow j count body =>
      cases hmemory : p.world.canHold count with
      | true => exact (custody_use h hcareful).returns (returns_borrow hmemory h hcareful)
      | false => rwa [step_borrow_of_not_canHold hmemory]
  | rescan j interfaces => exact h
  | outside f => exact hcareful p.world h

theorem custody_act (h : Custody p.world) {a : Act ι} (hcareful : a.Careful) :
    Custody (p.act a).world := by
  cases a with
  | does op => exact custody_step h hcareful
  | drops g => exact h.release g
  | takes path seconds breaks =>
      cases breaks with
      | true => exact h.taken (Lock.acquire_taken path seconds p.world)
      | false => exact h.taken (Lock.tryAcquire_taken path seconds p.world)

theorem custody_acts (h : Custody p.world) {happened : List (Act ι)}
    (hcareful : ∀ a ∈ happened, a.Careful) : Custody (p.acts happened).world := by
  induction happened generalizing p with
  | nil => exact h
  | cons a happened ih =>
      exact ih (custody_act h (hcareful a List.mem_cons_self))
        fun a' ha' => hcareful a' (List.mem_cons_of_mem a ha')

/-! ## No leaks, no thefts -/

/-- Somebody else's guard keeps a session waiting: it is on the file that the path of the session's
lock names, the session can tell when to give up, and then it may remove that file. -/
structure Blocks (g : Guard) (s : Session) (w : World) : Prop where
  live : g ∈ w.guards
  named : w.files.fileId s.lockPath = .ok g.file
  wait : w.canWait s.lockTimeoutSecs = true
  removable : w.files.Allows s.lockPath none

/-- The session gets its lock, with a guard that it did not have before on a file that is new, and
does under it what there is to do. -/
def Breaks (s : Session) (w : World) : Prop :=
  ∃ g w', (Lock.acquire s.lockPath s.lockTimeoutSecs).outcome w = (.ok g, w') ∧
    w.files.nextId ≤ g.file ∧ w'.files.fileId s.lockPath = .ok g.file ∧
      w'.guards = g :: w.guards ∧ ∀ {α : Type} (action : Action α),
        (s.underLock action).outcome w = ((action.outcome w').1, (action.outcome w').2.release g)

theorem breaks_of_blocks {s : Session} {w : World} (h : Custody w) {g : Guard}
    (hblocks : Blocks g s w) : Breaks s w := by
  obtain ⟨w', hlock⟩ := h.acquire_of_stale hblocks.live hblocks.named hblocks.wait hblocks.removable
  have htaken := Lock.acquire_taken s.lockPath s.lockTimeoutSecs w
  rw [hlock] at htaken
  obtain ⟨hgranted, hnamed⟩ := htaken
  refine ⟨_, w', hlock, Nat.le_refl _, hnamed, hgranted.guards, fun action => ?_⟩
  rw [Session.underLock, Lock.outcome_holding, hlock]

theorem Breaks.usable {s : Session} {w : World} (h : Breaks s w) :
    Lock.Usable s.lockPath s.lockTimeoutSecs w := by
  obtain ⟨g, w', hlock, _⟩ := h
  exact ⟨g, w', hlock⟩

/-- Whatever sessions do, and whichever locks others take and let go of meanwhile: when an operation
has returned, however it ended, the guards are those from before. A scoped use is made of other
operations around its body, and leaves the guards that its body leaves, or else does nothing if memory
cannot hold the list of its assets. No operation gets at the
ledger but with a guard of its own on the file that the path of its lock names: whatever an access
does elsewhere makes no difference. If somebody else's guard is held until the wait is over, an
operation that needs the lock has it on a new file, and the lock is free afterwards although that
guard is live still. So it is for the body of a scoped use, and after the use if the body leaves it
so. And whoever lets go of a guard frees its file and no other. -/
theorem nothing_leaked_or_stolen {p₀ : Pool ι} (hcustody : Custody p₀.world)
    (happened : List (Act ι)) (hcareful : ∀ a ∈ happened, a.Careful) :
    let p := p₀.acts happened
    (∀ i op, op.By i → (p.step op).world.guards = p.world.guards) ∧
      (∀ {α : Type} i count (body : List Asset → Action α), (Op.borrow i count body).Careful →
        if p.world.canHold count then
          let (q, w) := (p.sessions i).acquireMany count p.world
          w.guards = p.world.guards ∧
            (p.step (.borrow i count body)).world.guards = (bodyEnd body q w).guards ∧
            ∃ attempts ≤ count, p.step (.borrow i count body) =
              p.acts (partsOfUse i attempts body q) ∧ ∀ a ∈ partsOfUse i attempts body q, a.Careful
        else p.step (.borrow i count body) = p) ∧
      (∀ i (access : Access), access.Agrees (.direct (p.sessions i).ledgerPath)
          (Guarded p.world.guards (p.sessions i).lockPath) →
        Indifferent access (p.sessions i) p.world) ∧
      (∀ i g, Blocks g (p.sessions i) p.world → Breaks (p.sessions i) p.world ∧
        (∀ op, p.NeedsLock i op →
          Free (p.sessions i).lockPath (p.step op).world ∧ g ∈ (p.step op).world.guards) ∧
        ∀ {α : Type} count (body : List Asset → Action α), p.world.canHold (count + 1) = true →
          p.NeedsLock i (.acquire i) → (Op.borrow i (count + 1) body).Careful →
          let (q, w) := (p.sessions i).acquireMany (count + 1) p.world
          Free (p.sessions i).lockPath w ∧ g ∈ w.guards ∧
            (Free (p.sessions i).lockPath (bodyEnd body q w) →
              Free (p.sessions i).lockPath (p.step (.borrow i (count + 1) body)).world)) ∧
      ∀ g ∈ p.world.guards,
        (∀ g', g' ∈ (p.act (.drops g)).world.guards ↔ g' ∈ p.world.guards ∧ g' ≠ g) ∧
          ∀ file, (p.act (.drops g)).world.isHeld file = true ↔
            p.world.isHeld file = true ∧ file ≠ g.file := by
  intro p
  have h : Custody p.world := custody_acts hcustody hcareful
  refine ⟨fun i op hby => (returns_of_by h hby).guards, ?_,
    fun i access => Session.indifferent_of_agrees h, ?_,
    fun g hg => ⟨fun g' => h.mem_release hg, h.isHeld_after_release hg⟩⟩
  · intro α i count body hbody
    cases hmemory : p.world.canHold count with
    | false =>
        rw [if_neg Bool.false_ne_true]
        exact step_borrow_of_not_canHold hmemory i body
    | true =>
        have hmany := Session.returns_acquireMany (p.sessions i) h count
        obtain ⟨attempts, hle, hparts⟩ := borrow_acts hmemory i body
        rw [if_pos rfl]
        exact ⟨hmany.guards, (returns_borrow hmemory h hbody).guards, attempts, hle, hparts,
          partsOfUse_careful hbody attempts _⟩
  · intro i g hblocks
    have hbreaks := breaks_of_blocks h hblocks
    have husable := hbreaks.usable
    refine ⟨hbreaks, fun op hneeds => ?_, fun {α} count body hmemory hneeds hbody => ?_⟩
    · have hvisits := visits_of_needsLock hneeds
      refine ⟨hvisits.free h husable, ?_⟩
      rw [(hvisits.returns h).guards]
      exact hblocks.live
    · obtain ⟨_, t, htemplate⟩ := hneeds
      have hmany := Session.returns_acquireMany (p.sessions i) h (count + 1)
      obtain ⟨_, hfree⟩ := Session.free_acquireMany_of_usable htemplate h husable count
      exact ⟨hfree, hmany.guards ▸ hblocks.live, free_borrow hmemory h hbody htemplate husable⟩

/-- One session that starts from no file. -/
def single : Pool Unit := ⟨fun _ => .plain "ledger" "l" 1, Session.quiet (.empty [])⟩

/-- Somebody takes the lock and keeps it. -/
def kept : List (Act Unit) := [.takes "l" 0 false]

/-- The session looks at its ledger nevertheless, and then somebody else takes the lock. -/
def overtaken : List (Act Unit) := kept ++ [.does (.snapshot ()), .takes "l" 0 false]

/-- The session does not need the guard that is kept from it: it refuses to touch the ledger unless
there is another one. And the last guard outlives the first. -/
theorem nothing_leaked_or_stolen_overtaken :
    Blocks ⟨0, 0⟩ ((single.acts kept).sessions ()) (single.acts kept).world ∧
      Breaks ((single.acts kept).sessions ()) (single.acts kept).world ∧
      Free "l" ((single.acts kept).step (.snapshot ())).world ∧
      ((single.acts kept).step (.acquire ())).world.guards = [⟨0, 0⟩] ∧
      Indifferent ((Access.direct "ledger").onlyIf fun w => w.guards.any (· ≠ ⟨0, 0⟩))
        ((single.acts kept).sessions ()) (single.acts kept).world ∧
      (single.acts overtaken).world.guards = [⟨2, 1⟩, ⟨0, 0⟩] ∧
      ((single.acts overtaken).act (.drops ⟨0, 0⟩)).world.isHeld 1 = true := by
  have hcustody : Custody single.world := Lock.custody_of_no_guards rfl (FileSystem.numbered_empty [])
  have hkept : ∀ a ∈ kept, a.Careful := by simp [kept, Act.Careful]
  have hovertaken : ∀ a ∈ overtaken, a.Careful := by
    simp [overtaken, kept, Act.Careful, Op.Careful]
  have hguards : (single.acts kept).world.guards = [⟨0, 0⟩] := rfl
  have hblocks : Blocks ⟨0, 0⟩ ((single.acts kept).sessions ()) (single.acts kept).world :=
    ⟨List.mem_cons_self, rfl, rfl, rfl⟩
  obtain ⟨hreturns, _, haccess, hbreaks, _⟩ := nothing_leaked_or_stolen hcustody kept hkept
  obtain ⟨_, _, _, _, hdrops⟩ := nothing_leaked_or_stolen hcustody overtaken hovertaken
  obtain ⟨hbroken, hfree, _⟩ := hbreaks () ⟨0, 0⟩ hblocks
  have hlast : (single.acts overtaken).world.guards = [⟨2, 1⟩, ⟨0, 0⟩] := rfl
  have hheld : (single.acts overtaken).world.isHeld 1 = true := rfl
  refine ⟨hblocks, hbroken, (hfree (.snapshot ()) rfl).1,
    (hreturns () (.acquire ()) rfl).trans hguards, haccess () _ (Access.agrees_onlyIf ?_ _), hlast, ?_⟩
  · rintro w ⟨g, hg, hnew, _⟩
    rw [hguards, List.mem_singleton] at hnew
    exact List.any_eq_true.mpr ⟨g, hg, decide_eq_true hnew⟩
  · exact ((hdrops ⟨0, 0⟩ (by rw [hlast]; simp)).2 1).mpr ⟨hheld, Nat.one_ne_zero⟩

end NetPool.Pool
