import NetPool.Proofs.Lock.Custody
import NetPool.Proofs.Session.Operation

/-! # Visits to the ledger

All that a session does under its lock has one form: it loads the ledger, decides what to return and
what to list from then on, and stores that. Each access to the ledger happens while the session has a
guard of its own on the file that the path of its lock names. -/

namespace NetPool.Session

open NetPool.Effect NetPool.Action FileSystem
open Lock (Passes Custody composes_passes passes_makeParents passes_removeIfPresent)

variable {α : Type} {s : Session} {w w' : World} {path lockPath : String} {before : List Guard}

/-! ## Access to the ledger -/

/-- The accesses to the file of a ledger. -/
structure Access where
  load : Action (List Asset)
  makeParents : Action Unit
  write : ByteArray → Action Unit
  remove : Action Unit

namespace Access

/-- Access to the file of a path. -/
def direct (path : String) : Access where
  load := Ledger.load path
  makeParents := Action.changingFiles (·.makeParents path)
  write content := Action.onFiles (·.write path content)
  remove := Action.onFiles (·.removeIfPresent path)

def store (a : Access) : List Asset → Action Unit
  | [] => a.remove
  | e :: es => do
    a.makeParents
    a.write (Ledger.encode (e :: es))

theorem store_direct (path : String) (es : List Asset) :
    (direct path).store es = Ledger.store path es := by
  cases es with
  | nil => rfl
  | cons e es => rfl

/-- In the worlds of `P`, nobody can tell one from the other. -/
structure Agrees (a b : Access) (P : World → Prop) : Prop where
  load : ∀ {w}, P w → a.load.outcome w = b.load.outcome w
  makeParents : ∀ {w}, P w → a.makeParents.outcome w = b.makeParents.outcome w
  write : ∀ {w} content, P w → (a.write content).outcome w = (b.write content).outcome w
  remove : ∀ {w}, P w → a.remove.outcome w = b.remove.outcome w

/-- The action, refused where the condition does not hold. -/
def guarding (cond : World → Bool) (action : Action α) : Action α := Effect.of fun w =>
  if cond w then action.outcome w else (.error (.io .permissionDenied), w)

/-- The access, refused where the condition does not hold. -/
def onlyIf (cond : World → Bool) (a : Access) : Access where
  load := guarding cond a.load
  makeParents := guarding cond a.makeParents
  write content := guarding cond (a.write content)
  remove := guarding cond a.remove

theorem agrees_onlyIf {cond : World → Bool} {P : World → Prop} (h : ∀ w, P w → cond w = true)
    (a : Access) : (a.onlyIf cond).Agrees a P :=
  ⟨fun hw => if_pos (h _ hw), fun hw => if_pos (h _ hw), fun _ hw => if_pos (h _ hw),
    fun hw => if_pos (h _ hw)⟩

end Access

/-! ## Operations as visits -/

/-- Loads the ledger and decides on a result and on new entries, if there are to be any. -/
def visit (a : Access) (plan : List Asset → Action (α × Option (List Asset))) : Action α := do
  let entries ← a.load
  let (result, new?) ← plan entries
  match new? with
  | none => return result
  | some new =>
    a.store new
    return result

/-- Chooses an asset to be listed after the entries. -/
def reserving (s : Session) (t : CheckedTemplate) (entries : List Asset) :
    Action (Asset × Option (List Asset)) := do
  let used ← s.inUse entries
  let free ← Action.observe fun _ => chosen t s.maxAttempts used
  let asset ← stamped free
  return (asset, some (entries ++ [asset]))

def givingBack (s : Session) (entries : List Asset) : Action (Nat × Option (List Asset)) :=
  return (entries.length - (s.others entries).length, some (s.others entries))

def listing (entries : List Asset) : Action (List Asset × Option (List Asset)) :=
  return (entries, none)

def reclaiming (networkIf : String) (entries : List Asset) :
    Action (Option Asset × Option (List Asset)) :=
  match entries.find? (·.networkIf = networkIf) with
  | none => return (none, none)
  | some asset => return (some asset, some (entries.eraseP (·.networkIf = networkIf)))

def acquireBy (a : Access) (s : Session) : Action (Asset × Session) := do
  let t ← Action.observe fun _ => s.template.check.mapError .template
  let asset ← s.underLock (visit a (s.reserving t))
  return (asset, { s with pending := s.pending ++ [asset] })

def releaseAllBy (a : Access) (s : Session) : Action (Nat × Session) := do
  if s.pending.isEmpty then return (0, s)
  let removed ← s.underLock (visit a s.givingBack)
  return (removed, { s with pending := [] })

def snapshotBy (a : Access) (s : Session) : Action (List Asset) := s.underLock (visit a listing)

def reclaimBy (a : Access) (s : Session) (networkIf : String) : Action (Option Asset) :=
  s.underLock (visit a (reclaiming networkIf))

theorem reserve_eq (s : Session) (t : CheckedTemplate) :
    s.reserve t = visit (.direct s.ledgerPath) (s.reserving t) := by
  simp only [reserve, visit, reserving, bind_assoc, pure_bind, Access.store_direct]
  rfl

theorem giveBack_eq (s : Session) : s.giveBack = visit (.direct s.ledgerPath) s.givingBack := by
  simp only [giveBack, visit, givingBack, pure_bind, Access.store_direct]
  rfl

theorem load_eq (path : String) : Ledger.load path = visit (.direct path) listing := by
  simp only [visit, listing, pure_bind, bind_pure]
  rfl

theorem reclaim_eq (s : Session) (networkIf : String) :
    s.reclaim networkIf = s.underLock (visit (.direct s.ledgerPath) (reclaiming networkIf)) := by
  rw [reclaim]
  congr 2
  funext entries
  rw [reclaiming]
  cases entries.find? (·.networkIf = networkIf) with
  | none => rw [pure_bind]
  | some asset => simp only [pure_bind, Access.store_direct]

/-- With access to the file of its ledger, an operation is what it is. -/
theorem acquireBy_direct (s : Session) : acquireBy (.direct s.ledgerPath) s = s.acquire := by
  simp only [acquireBy, acquire_eq, reserve_eq]

theorem releaseAllBy_direct (s : Session) :
    releaseAllBy (.direct s.ledgerPath) s = s.releaseAll := by
  simp only [releaseAllBy, releaseAll_eq, giveBack_eq]

theorem snapshotBy_direct (s : Session) : snapshotBy (.direct s.ledgerPath) s = s.snapshot := by
  rw [snapshotBy, snapshot, load_eq]

theorem reclaimBy_direct (s : Session) (networkIf : String) :
    reclaimBy (.direct s.ledgerPath) s networkIf = s.reclaim networkIf := by
  rw [reclaimBy, reclaim_eq]

/-! ## Plans -/

/-- Neither files nor guards are touched. -/
structure Aside (w w' : World) : Prop where
  files : w'.files = w.files
  guards : w'.guards = w.guards
  nextGuard : w'.nextGuard = w.nextGuard
  uptime : w'.uptime = w.uptime

theorem composes_aside : Composes Aside where
  refl _ := ⟨rfl, rfl, rfl, rfl⟩
  trans h h' := ⟨h'.files.trans h.files, h'.guards.trans h.guards, h'.nextGuard.trans h.nextGuard,
    h'.uptime.trans h.uptime⟩

theorem Aside.passes (h : Aside w w') : Passes w w' :=
  ⟨h.files ▸ .refl w.files, h.guards, h.nextGuard, h.uptime⟩

theorem aside_reserving (s : Session) (t : CheckedTemplate) (entries : List Asset) :
    Leads Aside (s.reserving t entries) := by
  have hasks : Leads Aside (s.inUse entries) :=
    composes_aside.bind (fun _ => ⟨rfl, rfl, rfl, rfl⟩) fun _ => composes_aside.pure _
  have hstamps : ∀ a, Leads Aside (stamped a) := fun _ _ => ⟨rfl, rfl, rfl, rfl⟩
  exact composes_aside.bind hasks fun _ => composes_aside.bind (composes_aside.observe _) fun a =>
    composes_aside.bind (hstamps a) fun _ => composes_aside.pure _

theorem aside_givingBack (s : Session) (entries : List Asset) :
    Leads Aside (s.givingBack entries) := composes_aside.pure _

theorem aside_listing (entries : List Asset) : Leads Aside (listing entries) :=
  composes_aside.pure _

theorem aside_reclaiming (networkIf : String) (entries : List Asset) :
    Leads Aside (reclaiming networkIf entries) := by
  rw [reclaiming]
  cases entries.find? (·.networkIf = networkIf) with
  | none => exact composes_aside.pure _
  | some asset => exact composes_aside.pure _

/-! ## What a visit leaves -/

theorem outcome_visit (a : Access) (plan : List Asset → Action (α × Option (List Asset)))
    (w : World) :
    (visit a plan).outcome w =
      match a.load.outcome w with
      | (.error e, w) => (.error e, w)
      | (.ok es, w) =>
        match (plan es).outcome w with
        | (.error e, w) => (.error e, w)
        | (.ok (result, none), w) => (.ok result, w)
        | (.ok (result, some new), w) =>
          (((a.store new).outcome w).1.map fun _ => result, ((a.store new).outcome w).2) := by
  rw [visit, outcome_bind]
  rcases a.load.outcome w with ⟨e | es, w⟩
  · rfl
  simp only [outcome_bind]
  rcases (plan es).outcome w with ⟨e | ⟨result, _ | new⟩, w⟩
  · rfl
  · rfl
  simp only [outcome_bind]
  rcases (a.store new).outcome w with ⟨e | u, w⟩
  · rfl
  · rfl

/-- In a direct visit, nothing happens to files before something is stored. -/
theorem outcome_visit_direct (path : String)
    (plan : List Asset → Action (α × Option (List Asset))) (w : World) :
    (visit (.direct path) plan).outcome w =
      match Ledger.entries w.files path with
      | .error e => (.error e, w)
      | .ok es =>
        match (plan es).outcome w with
        | (.error e, w) => (.error e, w)
        | (.ok (result, none), w) => (.ok result, w)
        | (.ok (result, some new), w) =>
          (((Ledger.store path new).outcome w).1.map fun _ => result,
            ((Ledger.store path new).outcome w).2) := by
  have hload : (Access.direct path).load.outcome w = (Ledger.entries w.files path, w) := rfl
  simp only [outcome_visit, hload, Access.store_direct]
  cases Ledger.entries w.files path with
  | error e => rfl
  | ok es => rfl

theorem passes_store (path : String) (es : List Asset) : Leads Passes (Ledger.store path es) := by
  cases es with
  | nil => exact passes_removeIfPresent path
  | cons e es =>
      refine composes_passes.bind (passes_makeParents path) fun _ w => ?_
      rw [outcome_onFiles]
      split
      · rename_i hwrite
        exact .withFiles (later_write hwrite)
      · exact composes_passes.refl w

theorem passes_visit (path : String) {plan : List Asset → Action (α × Option (List Asset))}
    (hplan : ∀ es, Leads Aside (plan es)) : Leads Passes (visit (.direct path) plan) := by
  refine composes_passes.bind (composes_passes.observe _) fun es =>
    composes_passes.bind (fun w => (hplan es w).passes) fun (result, new?) => ?_
  cases new? with
  | none => exact composes_passes.pure result
  | some new =>
      refine composes_passes.bind ?_ fun _ => composes_passes.pure result
      rw [Access.store_direct]
      exact passes_store path new

/-- Whatever the path of the ledger is, the lock file can be opened again. -/
theorem reopens_store {file : FileId} {content : ByteArray}
    (h : w.files.look lockPath = .ok (.file file content)) (path : String) (es : List Asset) :
    Reopens ((Ledger.store path es).outcome w).2.files lockPath file := by
  cases es with
  | nil =>
      rw [Ledger.store, outcome_onFiles]
      split
      · rename_i hremove
        exact reopens_after_remove h hremove
      · exact .inl ⟨content, h⟩
  | cons e es =>
      have hmade := look_after_makeParents h path
      rw [Ledger.store, outcome_bind, outcome_changingFiles]
      cases (w.files.makeParents path).1 with
      | error e => exact .inl ⟨content, hmade⟩
      | ok u =>
          simp only [mapError_ok, outcome_onFiles]
          split
          · rename_i hwrite
            exact .inl (look_after_write hmade hwrite)
          · exact .inl ⟨content, hmade⟩

theorem reopens_visit {file : FileId} {content : ByteArray}
    (h : w.files.look lockPath = .ok (.file file content)) (path : String)
    {plan : List Asset → Action (α × Option (List Asset))} (hplan : ∀ es, Leads Aside (plan es)) :
    Reopens ((visit (.direct path) plan).outcome w).2.files lockPath file := by
  rw [outcome_visit_direct]
  cases Ledger.entries w.files path with
  | error e => exact .inl ⟨content, h⟩
  | ok es =>
      have haside := hplan es w
      simp only
      rcases hplanned : (plan es).outcome w with ⟨r, w'⟩
      rw [hplanned] at haside
      have hlook : w'.files.look lockPath = .ok (.file file content) := by rw [haside.files, h]
      rcases r with e | ⟨result, _ | new⟩
      · exact .inl ⟨content, hlook⟩
      · exact .inl ⟨content, hlook⟩
      · exact reopens_store hlook path new

/-! ## Accesses under a guard -/

/-- There is a guard that was not there before, on the file that the path names. -/
def Guarded (before : List Guard) (path : String) (w : World) : Prop :=
  ∃ g ∈ w.guards, g ∉ before ∧ w.files.fileId path = .ok g.file

theorem Guarded.aside (h : Guarded before lockPath w) (haside : Aside w w') :
    Guarded before lockPath w' := by
  obtain ⟨g, hg, hnew, hnamed⟩ := h
  exact ⟨g, haside.guards ▸ hg, hnew, by rw [haside.files, hnamed]⟩

theorem Guarded.makeParents (h : Guarded before lockPath w) (path : String) :
    Guarded before lockPath (w.withFiles (w.files.makeParents path).2) := by
  obtain ⟨g, hg, hnew, hnamed⟩ := h
  obtain ⟨content, hlook⟩ := look_of_fileId hnamed
  exact ⟨g, hg, hnew, fileId_of_look (look_after_makeParents hlook path)⟩

theorem store_agrees {a : Access} (ha : a.Agrees (.direct path) (Guarded before lockPath))
    (h : Guarded before lockPath w) (es : List Asset) :
    (a.store es).outcome w = (Ledger.store path es).outcome w := by
  cases es with
  | nil => exact ha.remove h
  | cons e es =>
      rw [Access.store, Ledger.store, outcome_bind, outcome_bind, ha.makeParents h]
      simp only [Access.direct, outcome_changingFiles]
      -- The lock file is where it was once the directories of the ledger are made.
      cases (w.files.makeParents path).1 with
      | error e => rfl
      | ok u => exact ha.write _ (h.makeParents path)

/-- Where a visit begins under a guard, all its accesses happen under that guard. -/
theorem visit_agrees {a : Access} (ha : a.Agrees (.direct path) (Guarded before lockPath))
    {plan : List Asset → Action (α × Option (List Asset))} (hplan : ∀ es, Leads Aside (plan es))
    (h : Guarded before lockPath w) :
    (visit a plan).outcome w = (visit (.direct path) plan).outcome w := by
  have hload : a.load.outcome w = (Ledger.entries w.files path, w) := ha.load h
  rw [outcome_visit, outcome_visit_direct, hload]
  cases Ledger.entries w.files path with
  | error e => rfl
  | ok es =>
      have haside := hplan es w
      simp only
      rcases hplanned : (plan es).outcome w with ⟨r, w'⟩
      rw [hplanned] at haside
      rcases r with e | ⟨result, _ | new⟩
      · rfl
      · rfl
      · simp only [store_agrees ha (h.aside haside)]

theorem guarded_of_acquire {g : Guard} {seconds : Nat} (h : Custody w)
    (hlock : (Lock.acquire lockPath seconds).outcome w = (.ok g, w')) :
    Guarded w.guards lockPath w' := by
  have htaken := Lock.acquire_taken lockPath seconds w
  rw [hlock] at htaken
  obtain ⟨hgranted, hnamed⟩ := htaken
  refine ⟨g, by rw [hgranted.guards]; exact List.mem_cons_self, fun hmem => ?_, hnamed⟩
  have hlt := h.below g hmem
  rw [hgranted.id] at hlt
  exact Nat.lt_irrefl _ hlt

theorem underLock_agrees (h : Custody w) {a : Access}
    (ha : a.Agrees (.direct s.ledgerPath) (Guarded w.guards s.lockPath))
    {plan : List Asset → Action (α × Option (List Asset))} (hplan : ∀ es, Leads Aside (plan es)) :
    (s.underLock (visit a plan)).outcome w =
      (s.underLock (visit (.direct s.ledgerPath) plan)).outcome w := by
  rw [underLock, underLock, Lock.outcome_holding, Lock.outcome_holding]
  rcases hlock : (Lock.acquire s.lockPath s.lockTimeoutSecs).outcome w with ⟨e | g, w'⟩
  · rfl
  · simp only [visit_agrees ha hplan (guarded_of_acquire h hlock)]

/-- With that access to the ledger, all operations end as they do anyway. -/
structure Indifferent (a : Access) (s : Session) (w : World) : Prop where
  acquire : (acquireBy a s).outcome w = s.acquire.outcome w
  releaseAll : (releaseAllBy a s).outcome w = s.releaseAll.outcome w
  snapshot : (snapshotBy a s).outcome w = s.snapshot.outcome w
  reclaim : ∀ networkIf, (reclaimBy a s networkIf).outcome w = (s.reclaim networkIf).outcome w

/-- It makes no difference what an access does while the session has no guard of its own. -/
theorem indifferent_of_agrees (h : Custody w) {a : Access}
    (ha : a.Agrees (.direct s.ledgerPath) (Guarded w.guards s.lockPath)) :
    Indifferent a s w := by
  refine ⟨?_, ?_, ?_, fun networkIf => ?_⟩
  · rw [← acquireBy_direct, acquireBy, acquireBy, outcome_bind, outcome_bind, outcome_observe]
    cases s.template.check with
    | error e => rfl
    | ok t => simp only [mapError_ok, outcome_bind, underLock_agrees h ha (aside_reserving s t)]
  · rw [← releaseAllBy_direct, releaseAllBy, releaseAllBy]
    split
    · rfl
    · rw [outcome_bind, outcome_bind, underLock_agrees h ha (aside_givingBack s)]
  · rw [← snapshotBy_direct]
    exact underLock_agrees h ha aside_listing
  · rw [← reclaimBy_direct]
    exact underLock_agrees h ha (aside_reclaiming networkIf)

end NetPool.Session
