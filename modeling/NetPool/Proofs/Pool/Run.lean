import NetPool.Proofs.Session.Steps

/-! # Pools of sessions

Several sessions share one ledger. They act in any order, each action succeeding or failing, while
the surroundings change in any way that leaves the ledger. What happens to the pending entries and
to the entries of the ledger is a sequence of events: an asset is acquired, a session gives back
what it has, an entry is reclaimed. -/

namespace NetPool

/-- Sessions and the world that they act on. -/
structure Pool (ι : Type) where
  sessions : ι → Session
  world : World

namespace Pool

variable {ι : Type} [DecidableEq ι]

/-! ## Runs -/

/-- What can happen to a pool. Besides the operations of the sessions, the host may get other
interfaces, and anything outside may change the world. -/
inductive Op (ι : Type) : Type 1 where
  | acquire (i : ι)
  | releaseAll (i : ι)
  | reclaim (i : ι) (networkIf : String)
  | snapshot (i : ι)
  | borrow {α : Type} (i : ι) (count : Nat) (body : List Asset → Action α)
  | rescan (i : ι) (interfaces : List HostInterface)
  | outside (f : World → World)

/-- The pool with another state of one session, in another world. -/
def put (p : Pool ι) (i : ι) (s : Session) (w : World) : Pool ι :=
  ⟨fun j => if j = i then s else p.sessions j, w⟩

/-- How an operation of one session ends, and the pool with whatever session and world it has left,
also if it failed. -/
def perform {α : Type} (p : Pool ι) (i : ι) (op : Session.Operation α) : Except Error α × Pool ι :=
  let (r, s, w) := op.outcome (p.sessions i, p.world)
  (r, p.put i s w)

/-- The pool after an operation, whether that succeeds or fails. -/
def step (p : Pool ι) : Op ι → Pool ι
  | .acquire i => (p.perform i .acquire).2
  | .releaseAll i => (p.perform i .releaseAll).2
  | .reclaim i networkIf => (p.perform i (.act (·.reclaim networkIf))).2
  | .snapshot i => (p.perform i (.act (·.snapshot))).2
  | .borrow i count body =>
    let use := (p.sessions i).borrow count body p.world
    p.put i use.session use.world
  | .rescan i interfaces => p.put i ((p.sessions i).withInterfaces interfaces) p.world
  | .outside f => ⟨p.sessions, f p.world⟩

/-- The pool after operations in order. -/
def run (p : Pool ι) (ops : List (Op ι)) : Pool ι := ops.foldl step p

theorem put_self (p : Pool ι) (i : ι) (w : World) : p.put i (p.sessions i) w = ⟨p.sessions, w⟩ := by
  simp only [Pool.put, Pool.mk.injEq, and_true]
  funext j
  by_cases hj : j = i
  · rw [if_pos hj, hj]
  · rw [if_neg hj]

/-- A failed operation that spares the session leaves all sessions. -/
theorem perform_of_spares {α : Type} {op : Session.Operation α}
    (h : Session.Operation.SparesOnFailure op) (p : Pool ι) (i : ι) :
    p.perform i op =
      match (op.actionOf (p.sessions i)).outcome p.world with
      | (.ok (a, s), w) => (.ok a, p.put i s w)
      | (.error e, w) => (.error e, ⟨p.sessions, w⟩) := by
  rw [perform, h.outcome_eq]
  rcases (op.actionOf (p.sessions i)).outcome p.world with ⟨e | ⟨a, s⟩, w⟩
  · simp only [put_self]
  · rfl

theorem perform_acquire (p : Pool ι) (i : ι) :
    p.perform i .acquire =
      match (p.sessions i).acquire.outcome p.world with
      | (.ok (a, s), w) => (.ok a, p.put i s w)
      | (.error e, w) => (.error e, ⟨p.sessions, w⟩) := by
  rw [perform_of_spares Session.Operation.acquire_sparesOnFailure, ← Session.acquire]
  rcases (p.sessions i).acquire.outcome p.world with ⟨e | ⟨a, s⟩, w⟩
  · rfl
  · rfl

theorem perform_releaseAll (p : Pool ι) (i : ι) :
    p.perform i .releaseAll =
      match (p.sessions i).releaseAll.outcome p.world with
      | (.ok (n, s), w) => (.ok n, p.put i s w)
      | (.error e, w) => (.error e, ⟨p.sessions, w⟩) := by
  rw [perform_of_spares Session.Operation.releaseAll_sparesOnFailure, ← Session.releaseAll]
  rcases (p.sessions i).releaseAll.outcome p.world with ⟨e | ⟨n, s⟩, w⟩
  · rfl
  · rfl

theorem perform_act {α : Type} (p : Pool ι) (i : ι) (action : Session → Action α) :
    p.perform i (.act action) =
      (((action (p.sessions i)).outcome p.world).1,
        ⟨p.sessions, ((action (p.sessions i)).outcome p.world).2⟩) := by
  rw [perform, Session.Operation.outcome_act]
  simp only [put_self]

/-! ## Histories -/

/-- What an operation has done to the entries. -/
inductive Event (ι : Type) where
  | acquired (i : ι) (a : Asset)
  | gaveBack (i : ι)
  | reclaimed (networkIf : String)

/-- The asset that an event adds. -/
def Event.asset? : Event ι → Option Asset
  | .acquired _ a => some a
  | .gaveBack _ | .reclaimed _ => none

/-- The assets that events add, in order. -/
def acquisitions (events : List (Event ι)) : List Asset := events.filterMap Event.asset?

/-- The world in which a scoped use ends and what it acquired is given back. -/
def bodyEnd {α : Type} (body : List Asset → Action α) (q : Session.Progress) (w : World) : World :=
  match q.failure with
  | some _ => w
  | none => ((body q.assets).outcome w).2

/-- The events of an operation. Where it fails, there are none, save for a scoped use, which may
fail in the middle. -/
def events (p : Pool ι) : Op ι → List (Event ι)
  | .acquire i =>
    match (p.perform i .acquire).1 with
    | .ok a => [.acquired i a]
    | .error _ => []
  | .releaseAll i =>
    match (p.perform i .releaseAll).1 with
    | .ok _ => [.gaveBack i]
    | .error _ => []
  | .reclaim i networkIf =>
    match (p.perform i (.act (·.reclaim networkIf))).1 with
    | .ok (some _) => [.reclaimed networkIf]
    | _ => []
  | .borrow i count body =>
    if p.world.canHold count then
      let (q, w) := (p.sessions i).acquireMany count p.world
      q.assets.map (.acquired i) ++
        match (q.session.settle (bodyEnd body q w)).1 with
        | .ok _ => [.gaveBack i]
        | .error _ => []
    else []
  | .snapshot _ | .rescan _ _ | .outside _ => []

/-- The events of operations in order. -/
def history (p : Pool ι) : List (Op ι) → List (Event ι)
  | [] => []
  | op :: ops => p.events op ++ (p.step op).history ops

/-- Nobody but the sessions touches what `P` says of the ledger. -/
def Op.Keeps (P : FileSystem → List Asset → Prop) : Op ι → Prop
  | .borrow _ _ body => ∀ assets w,
      ((body assets).outcome w).2.files.workDir = w.files.workDir ∧
        ∀ es, P w.files es → P ((body assets).outcome w).2.files es
  | .outside f => ∀ w, (f w).files.workDir = w.files.workDir ∧
      ∀ es, P w.files es → P (f w).files es
  | _ => True

/-- What an event does to the pending entries of the sessions and to the entries of the ledger. -/
inductive Change (pending : ι → List Asset) (es : List Asset) :
    Event ι → (ι → List Asset) → List Asset → Prop
  | acquired {i a pending'} (hcoherent : a.Coherent) (hseparate : ∀ e ∈ es, e.Separate a)
      (hown : pending' i = pending i ++ [a]) (hothers : ∀ j, j ≠ i → pending' j = pending j) :
      Change pending es (.acquired i a) pending' (es ++ [a])
  | gaveBack {i pending'} (hown : pending' i = []) (hothers : ∀ j, j ≠ i → pending' j = pending j) :
      Change pending es (.gaveBack i) pending' (es.filter fun e => !(pending i).contains e)
  | reclaimed {networkIf a pending'} (hfind : es.find? (·.networkIf = networkIf) = some a)
      (hsame : ∀ j, pending' j = pending j) :
      Change pending es (.reclaimed networkIf) pending' (es.eraseP (·.networkIf = networkIf))

/-- What events in order do. -/
inductive Changes : (ι → List Asset) → List Asset → List (Event ι) → (ι → List Asset) → List Asset →
    Prop
  | nil {pending pending' es} (hsame : ∀ j, pending' j = pending j) :
      Changes pending es [] pending' es
  | cons {pending pending₁ pending₂ es es₁ es₂ event events}
      (hfirst : Change pending es event pending₁ es₁)
      (hrest : Changes pending₁ es₁ events pending₂ es₂) :
      Changes pending es (event :: events) pending₂ es₂

omit [DecidableEq ι] in
theorem Changes.append {pending pending₁ pending₂ : ι → List Asset} {es es₁ es₂ : List Asset}
    {events more : List (Event ι)} (h : Changes pending es events pending₁ es₁)
    (h' : Changes pending₁ es₁ more pending₂ es₂) :
    Changes pending es (events ++ more) pending₂ es₂ := by
  induction h with
  | nil hsame =>
      have heq := funext hsame
      rwa [heq] at h'
  | cons hfirst _ ih => exact .cons hfirst (ih h')

omit [DecidableEq ι] in
theorem Changes.of_change {pending pending' : ι → List Asset} {es es' : List Asset}
    {event : Event ι} (h : Change pending es event pending' es') :
    Changes pending es [event] pending' es' :=
  .cons h (.nil fun _ => rfl)

/-! ## What a step can do -/

/-- The pending entries of all sessions. -/
def pending (p : Pool ι) (i : ι) : List Asset := (p.sessions i).pending

/-- All sessions use the ledger of one path, their locks are apart from it, and it shows the
entries. -/
structure Standing (R : Option ByteArray → List Asset → Prop) (start : FileSystem) (path : String)
    (p : Pool ι) (es : List Asset) : Prop where
  ledger : ∀ i, (p.sessions i).ledgerPath = path
  apart : ∀ i, FileSystem.Apart start (p.sessions i).lockPath path
  shown : Ledger.At R start.workDir path es p.world.files

variable {R : Option ByteArray → List Asset → Prop} (hR : Ledger.Represents R)
  {start : FileSystem} {path : String} {p : Pool ι} {es : List Asset}

/-- Another state of a session and of the world stands if the session keeps its paths. -/
theorem Standing.put {es' : List Asset} (h : Standing R start path p es) {i : ι} {s : Session}
    {w : World} (hledger : s.ledgerPath = (p.sessions i).ledgerPath)
    (hlock : s.lockPath = (p.sessions i).lockPath)
    (hshown : Ledger.At R start.workDir path es' w.files) :
    Standing R start path (p.put i s w) es' := by
  refine ⟨fun j => ?_, fun j => ?_, hshown⟩
  · by_cases hj : j = i
    · simpa [Pool.put, hj, hledger] using h.ledger i
    · simpa [Pool.put, hj] using h.ledger j
  · by_cases hj : j = i
    · simpa [Pool.put, hj, hlock] using h.apart i
    · simpa [Pool.put, hj] using h.apart j

omit [DecidableEq ι] in
theorem Standing.world {es' : List Asset} (h : Standing R start path p es) {w : World}
    (hshown : Ledger.At R start.workDir path es' w.files) :
    Standing R start path ⟨p.sessions, w⟩ es' :=
  ⟨h.ledger, h.apart, hshown⟩

theorem pending_put_self (p : Pool ι) (i : ι) (s : Session) (w : World) :
    (p.put i s w).pending i = s.pending := by
  simp [pending, Pool.put]

theorem pending_put_other (p : Pool ι) {i j : ι} (h : j ≠ i) (s : Session) (w : World) :
    (p.put i s w).pending j = p.pending j := by
  simp [pending, Pool.put, h]

/-- What an operation has come to: the events took place, and the pool stands afterwards. -/
def Follows (R : Option ByteArray → List Asset → Prop) (start : FileSystem) (path : String)
    (p : Pool ι) (es : List Asset) (events : List (Event ι)) (p' : Pool ι) : Prop :=
  ∃ es', Changes p.pending es events p'.pending es' ∧ Standing R start path p' es'

theorem put_put (p : Pool ι) (i : ι) (s s' : Session) (w w' : World) :
    (p.put i s w).put i s' w' = p.put i s' w' := by
  simp only [Pool.put, Pool.mk.injEq, and_true]
  funext j
  by_cases hj : j = i
  · rw [if_pos hj, if_pos hj]
  · rw [if_neg hj, if_neg hj, if_neg hj]

theorem sessions_put_self (p : Pool ι) (i : ι) (s : Session) (w : World) :
    (p.put i s w).sessions i = s := if_pos rfl

omit [DecidableEq ι] in
theorem Standing.session (h : Standing R start path p es) (i : ι) :
    FileSystem.Apart p.world.files (p.sessions i).lockPath (p.sessions i).ledgerPath ∧
      Ledger.At R start.workDir (p.sessions i).ledgerPath es p.world.files := by
  rw [h.ledger i]
  exact ⟨(h.apart i).of_workDir h.shown.workDir, h.shown⟩

omit [DecidableEq ι] in
theorem Standing.idle (h : Standing R start path p es) {w : World}
    (hshown : Ledger.At R start.workDir path es w.files) :
    Follows R start path p es [] ⟨p.sessions, w⟩ :=
  ⟨es, .nil fun _ => rfl, h.world hshown⟩

include hR in
theorem acquire_follows (h : Standing R start path p es) (i : ι) :
    Follows R start path p es
      (match (p.perform i .acquire).1 with
        | .ok a => [.acquired i a]
        | .error _ => [])
      (p.perform i .acquire).2 := by
  obtain ⟨hapart, hshown⟩ := h.session i
  have hacquire := Session.acquire_at hR hapart hshown
  rw [perform_acquire]
  rcases houtcome : (p.sessions i).acquire.outcome p.world with ⟨e | ⟨a, s⟩, w⟩
  · rw [houtcome, h.ledger i] at hacquire
    exact h.idle hacquire
  · rw [houtcome, h.ledger i] at hacquire
    obtain ⟨rfl, hat, hcoherent, hseparate⟩ := hacquire
    refine ⟨es ++ [a], .of_change (.acquired hcoherent hseparate ?_ fun j hj => ?_),
      h.put (h.ledger i).symm rfl hat⟩
    · rw [pending_put_self]
      rfl
    · rw [pending_put_other p hj]

include hR in
theorem releaseAll_follows (h : Standing R start path p es) (i : ι) :
    Follows R start path p es
      (match (p.perform i .releaseAll).1 with
        | .ok _ => [.gaveBack i]
        | .error _ => [])
      (p.perform i .releaseAll).2 := by
  obtain ⟨hapart, hshown⟩ := h.session i
  have hrelease := Session.releaseAll_at hR hapart hshown
  rw [perform_releaseAll]
  rcases houtcome : (p.sessions i).releaseAll.outcome p.world with ⟨e | ⟨n, s⟩, w⟩
  · rw [houtcome, h.ledger i] at hrelease
    exact h.idle hrelease
  · rw [houtcome, h.ledger i] at hrelease
    obtain ⟨rfl, hat, _⟩ := hrelease
    refine ⟨_, .of_change (.gaveBack ?_ fun j hj => ?_), h.put (h.ledger i).symm rfl hat⟩
    · rw [pending_put_self]
    · rw [pending_put_other p hj]

include hR in
theorem reclaim_follows (h : Standing R start path p es) (i : ι) (networkIf : String) :
    Follows R start path p es (p.events (.reclaim i networkIf)) (p.step (.reclaim i networkIf)) := by
  obtain ⟨hapart, hshown⟩ := h.session i
  have hreclaim := Session.reclaim_at hR hapart hshown networkIf
  rw [events, step, perform_act]
  rcases houtcome : ((p.sessions i).reclaim networkIf).outcome p.world with ⟨e | _ | a, w⟩
  · rw [houtcome, h.ledger i] at hreclaim
    exact h.idle hreclaim
  · rw [houtcome, h.ledger i] at hreclaim
    exact h.idle hreclaim.2
  · rw [houtcome, h.ledger i] at hreclaim
    exact ⟨_, .of_change (.reclaimed hreclaim.1 fun _ => rfl), h.world hreclaim.2⟩

/-! ## Scoped use -/

omit [DecidableEq ι] in
theorem Follows.trans {p₁ p₂ : Pool ι} {events more : List (Event ι)}
    (h : Follows R start path p es events p₁)
    (h' : ∀ es₁, Standing R start path p₁ es₁ → Follows R start path p₁ es₁ more p₂) :
    Follows R start path p es (events ++ more) p₂ := by
  obtain ⟨es₁, hchanges, hstanding⟩ := h
  obtain ⟨es₂, hchanges', hstanding'⟩ := h' es₁ hstanding
  exact ⟨es₂, hchanges.append hchanges', hstanding'⟩

include hR in
theorem acquireMany_follows (h : Standing R start path p es) (i : ι) (count : Nat) :
    Follows R start path p es
      (((p.sessions i).acquireMany count p.world).1.assets.map (.acquired i))
      (p.put i ((p.sessions i).acquireMany count p.world).1.session
        ((p.sessions i).acquireMany count p.world).2) := by
  induction count generalizing p es with
  | zero =>
      rw [Session.acquireMany, put_self]
      exact h.idle h.shown
  | succ count ih =>
      have hfirst := acquire_follows hR h i
      rw [perform] at hfirst
      rw [Session.acquireMany]
      rcases houtcome : Effect.outcome Session.Operation.acquire (p.sessions i, p.world) with
        ⟨e | a, s, w⟩
      · rw [houtcome] at hfirst
        exact hfirst
      · rw [houtcome] at hfirst
        refine hfirst.trans fun es₁ hstanding => ?_
        have hrest := ih hstanding
        rw [sessions_put_self, put_put] at hrest
        exact hrest

theorem useAndReturn_eq {α : Type} (s : Session) (count : Nat) (body : List Asset → Action α)
    (w : World) :
    ((s.useAndReturn count body w).session, (s.useAndReturn count body w).world) =
      ((s.acquireMany count w).1.session.settle
        (bodyEnd body (s.acquireMany count w).1 (s.acquireMany count w).2)).2 := by
  rw [Session.useAndReturn, bodyEnd]
  rcases s.acquireMany count w with ⟨q, w'⟩
  simp only
  cases q.failure with
  | some e => rfl
  | none =>
      simp only
      rcases (body q.assets).outcome w' with ⟨r, w''⟩
      rcases q.session.settle w'' with ⟨released, s', w₃⟩
      cases r with
      | error e => rfl
      | ok a =>
          cases released with
          | error e => rfl
          | ok n => rfl

/-- If memory can hold the assets, a scoped use ends with giving back. -/
theorem step_borrow {α : Type} {count : Nat} (hmemory : p.world.canHold count = true) (i : ι)
    (body : List Asset → Action α) :
    p.step (.borrow i count body) =
      p.put i (((p.sessions i).acquireMany count p.world).1.session.settle
          (bodyEnd body ((p.sessions i).acquireMany count p.world).1
            ((p.sessions i).acquireMany count p.world).2)).2.1
        (((p.sessions i).acquireMany count p.world).1.session.settle
          (bodyEnd body ((p.sessions i).acquireMany count p.world).1
            ((p.sessions i).acquireMany count p.world).2)).2.2 := by
  have huse := useAndReturn_eq (p.sessions i) count body p.world
  have hsession := congrArg Prod.fst huse
  have hworld := congrArg Prod.snd huse
  simp only at hsession hworld
  rw [step, Session.borrow, if_pos hmemory]
  simp only [hsession, hworld]

/-- Otherwise it does nothing. -/
theorem step_borrow_of_not_canHold {α : Type} {count : Nat} (hmemory : p.world.canHold count = false)
    (i : ι) (body : List Asset → Action α) : p.step (.borrow i count body) = p := by
  rw [step, Session.borrow, hmemory]
  exact put_self p i p.world

include hR in
theorem borrow_follows {α : Type} (h : Standing R start path p es) (i : ι) (count : Nat)
    (body : List Asset → Action α)
    (hkeeps : (Op.borrow i count body).Keeps fun files es => Ledger.Shows R files path es) :
    Follows R start path p es (p.events (.borrow i count body)) (p.step (.borrow i count body)) := by
  cases hmemory : p.world.canHold count with
  | false =>
      rw [step_borrow_of_not_canHold hmemory, events, hmemory]
      exact h.idle h.shown
  | true =>
      have hacquire := acquireMany_follows hR h i count
      rw [step_borrow hmemory, events, if_pos hmemory]
      rcases hmany : (p.sessions i).acquireMany count p.world with ⟨q, w⟩
      rw [hmany] at hacquire
      refine hacquire.trans fun es₁ hstanding => ?_
      have hbody : Standing R start path (p.put i q.session (bodyEnd body q w)) es₁ := by
        refine ⟨hstanding.ledger, hstanding.apart, ?_⟩
        cases hfailure : q.failure with
        | some e =>
            simp only [bodyEnd, hfailure]
            exact hstanding.shown
        | none =>
            obtain ⟨hdir, hshows⟩ := hkeeps q.assets w
            simp only [bodyEnd, hfailure]
            exact ⟨hdir.trans hstanding.shown.workDir, hshows es₁ hstanding.shown.shows⟩
      have hsettle := releaseAll_follows hR hbody i
      rw [perform, sessions_put_self] at hsettle
      simp only [put_put] at hsettle
      exact hsettle

include hR in
/-- Whatever an operation does is a sequence of events. -/
theorem step_follows (h : Standing R start path p es) (op : Op ι)
    (hkeeps : op.Keeps fun files es => Ledger.Shows R files path es) :
    Follows R start path p es (p.events op) (p.step op) := by
  cases op with
  | acquire i => exact acquire_follows hR h i
  | releaseAll i => exact releaseAll_follows hR h i
  | reclaim i networkIf => exact reclaim_follows hR h i networkIf
  | snapshot i =>
      obtain ⟨hapart, hshown⟩ := h.session i
      have hsnapshot := (Session.snapshot_at hR hapart hshown).2
      rw [h.ledger i] at hsnapshot
      rw [events, step, perform_act]
      exact h.idle hsnapshot
  | borrow i count body => exact borrow_follows hR h i count body hkeeps
  | rescan i interfaces =>
      refine ⟨es, .nil fun j => ?_, h.put rfl rfl h.shown⟩
      by_cases hj : j = i
      · rw [hj, step, pending_put_self]
        rfl
      · rw [step, pending_put_other p hj]
  | outside f =>
      obtain ⟨hdir, hshows⟩ := hkeeps p.world
      exact h.idle ⟨hdir.trans h.shown.workDir, hshows es h.shown.shows⟩

include hR in
/-- Whatever operations in any order do is a sequence of events. -/
theorem run_follows (h : Standing R start path p es) (ops : List (Op ι))
    (hkeeps : ∀ op ∈ ops, op.Keeps fun files es => Ledger.Shows R files path es) :
    Follows R start path p es (p.history ops) (p.run ops) := by
  induction ops generalizing p es with
  | nil => exact ⟨es, .nil fun _ => rfl, h⟩
  | cons op ops ih =>
      obtain ⟨es₁, hchanges, hstanding⟩ := step_follows hR h op (hkeeps op List.mem_cons_self)
      obtain ⟨es₂, hchanges', hstanding'⟩ :=
        ih hstanding fun op' hop' => hkeeps op' (List.mem_cons_of_mem op hop')
      exact ⟨es₂, hchanges.append hchanges', hstanding'⟩

omit [DecidableEq ι] in
theorem Op.Keeps.congr {P Q : FileSystem → List Asset → Prop} {op : Op ι} (h : op.Keeps P)
    (hiff : ∀ files es, P files es ↔ Q files es) : op.Keeps Q := by
  obtain rfl : P = Q := funext fun files => funext fun es => propext (hiff files es)
  exact h

/-- Whatever operations in any order do to a ledger that loads is a sequence of events. -/
theorem run_follows_lists (hledger : ∀ i, (p.sessions i).ledgerPath = path)
    (hapart : ∀ i, FileSystem.Apart p.world.files (p.sessions i).lockPath path)
    (hlists : Ledger.Lists p.world.files path es) (ops : List (Op ι))
    (hkeeps : ∀ op ∈ ops, op.Keeps fun files es => Ledger.Lists files path es) :
    Follows (fun content? es => Ledger.decodeSlot content? = .ok es) p.world.files path p es
      (p.history ops) (p.run ops) :=
  run_follows Ledger.represents_decodeSlot ⟨hledger, hapart, rfl, Ledger.lists_iff.mp hlists⟩ ops
    fun op hop => (hkeeps op hop).congr fun _ _ => Ledger.lists_iff

/-! ## Small pools -/

/-- A session of a small pool. -/
def tenant (pending : List Asset) : Session :=
  { Session.plain "ledger" "ledger.lock" 2 with pending }

/-- Two sessions, and a ledger of two entries that none of them has acquired. -/
def pair : Pool Bool :=
  ⟨fun _ => tenant [], { Session.keeping [Session.guest, Session.lodger] with clock := .afterEpoch }⟩

theorem pair_apart (i : Bool) :
    FileSystem.Apart pair.world.files (pair.sessions i).lockPath "ledger" := by
  have hapart : FileSystem.Apart pair.world.files "ledger.lock" "ledger" :=
    FileSystem.apart_of_incomparable (by decide) (by decide) (by decide) (by decide)
  exact hapart

theorem pair_reads :
    pair.world.files.read "ledger" = .ok (Ledger.encode [Session.guest, Session.lodger]) := rfl

theorem pair_lists : Ledger.Lists pair.world.files "ledger" [Session.guest, Session.lodger] :=
  ⟨(Ledger.entries_of_content pair_reads).trans (Ledger.decode_encode _),
    .inr ((Ledger.entries_of_content (FileSystem.read_makeParents pair_reads).2).trans
      (Ledger.decode_encode _))⟩

/-- A session of a small pool gets its lock and finds the entries, and nothing is refused. -/
structure Unlocks (w : World) (es : List Asset) (g : Guard) (w' : World) : Prop where
  lock : (Lock.acquire "ledger.lock" 0).outcome w = (.ok g, w')
  read : w'.files.read "ledger" = .ok (Ledger.encode es)
  rules : w'.files.refusal? = fun _ _ => none

section Tenant

variable {w w' w₁ : World} {g : Guard}

theorem Unlocks.entries (h : Unlocks w es g w') : Ledger.entries w'.files "ledger" = .ok es :=
  (Ledger.entries_of_content h.read).trans (Ledger.decode_encode es)

theorem Unlocks.exists_store {e : Asset} (h : Unlocks w (e :: es) g w') (new : List Asset) :
    ∃ w₁, (Ledger.store "ledger" new).outcome w' = (.ok (), w₁) :=
  Ledger.exists_store_of_entries h.entries (fun hes => by cases hes)
    (by rw [FileSystem.Allows, h.rules])

theorem tenant_acquires {t : CheckedTemplate} {a : Asset} (h : Unlocks w es g w')
    (htemplate : (tenant []).template.check = .ok t)
    (hreserve : ((tenant []).reserveFrom t es).outcome w' = (.ok a, w₁)) (pending : List Asset) :
    (tenant pending).acquire.outcome w = (.ok (a, tenant (pending ++ [a])), w₁.release g) := by
  -- What is pending has no part in a reservation.
  have hpending : (tenant pending).reserveFrom t es = (tenant []).reserveFrom t es := rfl
  have hacquire := Session.outcome_acquire (tenant pending) htemplate h.lock
  rw [Session.outcome_reserve t h.entries, hpending, hreserve] at hacquire
  exact hacquire

theorem tenant_releases {e : Asset} {pending : List Asset} (h : Unlocks w (e :: es) g w')
    (hpending : pending ≠ []) :
    ∃ n w₁, (tenant pending).releaseAll.outcome w = (.ok (n, tenant []), w₁) := by
  obtain ⟨w₁, hstore⟩ := h.exists_store ((tenant pending).others (e :: es))
  have hrelease := Session.outcome_releaseAll (s := tenant pending) hpending h.lock h.entries
  rw [show (tenant pending).ledgerPath = "ledger" from rfl, hstore] at hrelease
  exact ⟨_, _, hrelease⟩

end Tenant

theorem step_of_acquired {i : ι} {a : Asset} {s : Session} {w : World}
    (h : (p.sessions i).acquire.outcome p.world = (.ok (a, s), w)) :
    p.step (.acquire i) = p.put i s w ∧ p.events (.acquire i) = [.acquired i a] := by
  rw [step, events, perform_acquire, h]
  exact ⟨rfl, rfl⟩

theorem step_of_reclaimed {i : ι} {networkIf : String} {a : Asset} {w : World}
    (h : ((p.sessions i).reclaim networkIf).outcome p.world = (.ok (some a), w)) :
    p.step (.reclaim i networkIf) = ⟨p.sessions, w⟩ ∧
      p.events (.reclaim i networkIf) = [.reclaimed networkIf] := by
  rw [step, events, perform_act, h]
  exact ⟨rfl, rfl⟩

/-- Two acquisitions, whichever sessions make them, and what can be done after them. -/
theorem tenants_acquire : ∃ a b w₁ w₂ w₃,
    (∀ pending, (tenant pending).acquire.outcome pair.world = (.ok (a, tenant (pending ++ [a])), w₁)) ∧
      (∀ pending, (tenant pending).acquire.outcome w₁ = (.ok (b, tenant (pending ++ [b])), w₂)) ∧
      (a.allocatedAt = some (Instant.afterEpoch 0) ∧ b.allocatedAt = some (Instant.afterEpoch 1)) ∧
      (∃ g w, Unlocks w₂ [Session.guest, Session.lodger, a, b] g w) ∧
      (∀ pending, ((tenant pending).reclaim "guest").outcome w₂ = (.ok (some Session.guest), w₃)) ∧
      w₃.files.read "ledger" = .ok (Ledger.encode [Session.lodger, a, b]) ∧
      ∃ g w, Unlocks w₃ [Session.lodger, a, b] g w := by
  obtain ⟨t, g, w, a, w', g', w₁, b, w₁', g₂, w₂, w₃, g₃, w₄, htemplate, hfirst, hreserve, hsecond,
      hreserve', hthird, hstore, hread, hlast, hstamp, hstamp'⟩ :
      ∃ t g w a w' g' w₁ b w₁' g₂ w₂ w₃ g₃ w₄, (tenant []).template.check = .ok t ∧
        Unlocks pair.world [Session.guest, Session.lodger] g w ∧
        ((tenant []).reserveFrom t [Session.guest, Session.lodger]).outcome w = (.ok a, w') ∧
        Unlocks (w'.release g) [Session.guest, Session.lodger, a] g' w₁ ∧
        ((tenant []).reserveFrom t [Session.guest, Session.lodger, a]).outcome w₁ = (.ok b, w₁') ∧
        Unlocks (w₁'.release g') [Session.guest, Session.lodger, a, b] g₂ w₂ ∧
        (Ledger.store "ledger" [Session.lodger, a, b]).outcome w₂ = (.ok (), w₃) ∧
        (w₃.release g₂).files.read "ledger" = .ok (Ledger.encode [Session.lodger, a, b]) ∧
        Unlocks (w₃.release g₂) [Session.lodger, a, b] g₃ w₄ ∧
        a.allocatedAt = some (Instant.afterEpoch 0) ∧ b.allocatedAt = some (Instant.afterEpoch 1) :=
    ⟨_, _, _, _, _, _, _, _, _, _, _, _, _, _, rfl, ⟨rfl, rfl, rfl⟩, rfl, ⟨rfl, rfl, rfl⟩, rfl,
      ⟨rfl, rfl, rfl⟩, rfl, rfl, ⟨rfl, rfl, rfl⟩, rfl, rfl⟩
  refine ⟨a, b, _, _, _, tenant_acquires hfirst htemplate hreserve,
    tenant_acquires hsecond htemplate hreserve', ⟨hstamp, hstamp'⟩, ⟨_, _, hthird⟩, fun pending => ?_,
    hread, _, _, hlast⟩
  have hreclaim := Session.outcome_reclaim (s := tenant pending) "guest" hthird.lock hthird.entries
  rw [show List.find? (·.networkIf = "guest") [Session.guest, Session.lodger, a, b] =
      some Session.guest from rfl,
    show List.eraseP (·.networkIf = "guest") [Session.guest, Session.lodger, a, b] =
      [Session.lodger, a, b] from rfl,
    show (tenant pending).ledgerPath = "ledger" from rfl] at hreclaim
  simp only [hstore] at hreclaim
  exact hreclaim

/-- Both sessions acquire, and an entry of before is removed. -/
def subletting : List (Op Bool) := [.acquire true, .acquire false, .reclaim true "guest"]

theorem subletting_keeps {P : FileSystem → List Asset → Prop} : ∀ op ∈ subletting, op.Keeps P := by
  intro op hop
  simp only [subletting, List.mem_cons, List.not_mem_nil, or_false] at hop
  rcases hop with rfl | rfl | rfl
  · exact trivial
  · exact trivial
  · exact trivial

theorem pair_sublets : ∃ a b,
    pair.history subletting = [.acquired true a, .acquired false b, .reclaimed "guest"] ∧
      a.allocatedAt ≠ b.allocatedAt ∧
      Ledger.entries (pair.run subletting).world.files "ledger" = .ok [Session.lodger, a, b] ∧
      ∃ n w, ((pair.run subletting).sessions true).releaseAll.outcome (pair.run subletting).world =
        (.ok (n, tenant []), w) := by
  obtain ⟨a, b, w₁, w₂, w₃, hfirst, hsecond, ⟨hstamp, hstamp'⟩, _, hreclaim, hread, g, w, hlast⟩ :=
    tenants_acquire
  obtain ⟨hstep₁, hevents₁⟩ := step_of_acquired (p := pair) (i := true) (hfirst [])
  obtain ⟨hstep₂, hevents₂⟩ :=
    step_of_acquired (p := pair.put true (tenant [a]) w₁) (i := false) (hsecond [])
  obtain ⟨hstep₃, hevents₃⟩ := step_of_reclaimed
    (p := (pair.put true (tenant [a]) w₁).put false (tenant [b]) w₂) (i := true) (hreclaim [a])
  have hhistory : pair.history subletting =
      [.acquired true a, .acquired false b, .reclaimed "guest"] := by
    simp only [subletting, history, hstep₁, hevents₁, List.nil_append, hstep₂, hevents₂, hevents₃,
      List.singleton_append]
  have hrun : pair.run subletting =
      ⟨((pair.put true (tenant [a]) w₁).put false (tenant [b]) w₂).sessions, w₃⟩ := by
    simp only [run, subletting, List.foldl_cons, List.foldl_nil, hstep₁, List.nil_append, hstep₂,
      hstep₃]
  obtain ⟨n, w', hrelease⟩ := tenant_releases hlast (List.cons_ne_nil a [])
  refine ⟨a, b, hhistory, ?_, ?_, n, w', ?_⟩
  · rw [hstamp, hstamp']
    decide
  · rw [hrun]
    exact (Ledger.entries_of_content hread).trans (Ledger.decode_encode _)
  · rw [hrun]
    exact hrelease

/-- A session whose ledger is beyond a missing directory, where a file cannot be read yet. -/
def hidden (content : ByteArray) : Pool Unit :=
  ⟨fun _ => .plain "x/../h" "x/lock" 0,
    Session.quiet ((FileSystem.empty []).set ["h"] (some (.file 0 content)))⟩

end Pool

end NetPool
