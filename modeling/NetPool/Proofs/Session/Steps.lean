import NetPool.Proofs.Ledger.RoundTrip
import NetPool.Proofs.Session.Acquire

/-! # Steps of a session

What each operation of a session does to the entries that the ledger shows, whether it succeeds or
fails at any stage. -/

namespace NetPool

namespace Ledger

/-- The files of a world in which the ledger of a path shows the entries. -/
structure At (R : Option ByteArray → List Asset → Prop) (dir : List String) (path : String)
    (es : List Asset) (files : FileSystem) : Prop where
  workDir : files.workDir = dir
  shows : Shows R files path es

variable {R : Option ByteArray → List Asset → Prop} {dir : List String} {path : String}
  {es : List Asset}

theorem At.spared {files files' : FileSystem} (h : At R dir path es files)
    (hspares : FileSystem.Spares path files files') : At R dir path es files' :=
  ⟨hspares.workDir.trans h.workDir, h.shows.spared hspares⟩

end Ledger

namespace Session

open NetPool.Effect NetPool.Action FileSystem Ledger

variable {R : Option ByteArray → List Asset → Prop} (hR : Represents R) {dir : List String}
  {s : Session} {es : List Asset} {w : World}

/-! ## What is refused -/

/-- Nothing has changed in what is refused. -/
def KeepsRules (w w' : World) : Prop := SameRules w.files w'.files

theorem composes_keepsRules : Composes KeepsRules where
  refl w := .refl w.files
  trans h h' := SameRules.trans h h'

theorem holdsOfSteps_keepsRules (path : String) : Lock.HoldsOfSteps path KeepsRules where
  toComposes := composes_keepsRules
  parents w := sameRules_makeParents w.files path
  opens := sameRules_openOrCreate
  removes := sameRules_removeIfPresent
  grants w _ := .refl w.files

theorem keepsRules_underLock {α : Type} {action : Action α} (haction : Leads KeepsRules action) :
    Leads KeepsRules (s.underLock action) := by
  intro w
  have hlock := (holdsOfSteps_keepsRules s.lockPath).acquire s.lockTimeoutSecs w
  rw [underLock, Lock.outcome_holding]
  rcases houtcome : (Lock.acquire s.lockPath s.lockTimeoutSecs).outcome w with ⟨_ | g, w'⟩
  · rwa [houtcome] at hlock
  · rw [houtcome] at hlock
    exact SameRules.trans hlock (haction w')

theorem keepsRules_reserve (s : Session) (t : CheckedTemplate) :
    Leads KeepsRules (s.reserve t) := by
  have hR := composes_keepsRules
  have hasks : ∀ entries, Leads KeepsRules (s.inUse entries) := fun entries =>
    hR.bind (fun w => .refl w.files) fun _ => hR.pure _
  have hstamps : ∀ a, Leads KeepsRules (stamped a) := fun a w => .refl w.files
  refine hR.bind (hR.observe _) fun entries => hR.bind (hasks entries) fun used =>
    hR.bind (hR.observe _) fun free => hR.bind (hstamps free) fun asset => ?_
  exact hR.bind (sameRules_store _ _) fun _ => hR.pure asset

theorem keepsRules_acquire (s : Session) : Leads KeepsRules s.acquire := by
  have hR := composes_keepsRules
  rw [acquire_eq]
  exact hR.bind (hR.observe _) fun t =>
    hR.bind (keepsRules_underLock (keepsRules_reserve s t)) fun _ => hR.pure _

/-! ## Storing -/

include hR in
theorem store_at {path : String} (h : At R dir path es w.files) (new : List Asset) :
    match (Ledger.store path new).outcome w with
    | (.ok _, w') => At R dir path new w'.files
    | (.error _, w') => At R dir path es w'.files := by
  have hdir := (sameRules_store path new w).workDir
  rcases h.shows.store hR new with ⟨w', hstore, hshows⟩ | ⟨e, w', hstore, hshows⟩
  · rw [hstore] at hdir ⊢
    exact ⟨hdir.trans h.workDir, hshows⟩
  · rw [hstore] at hdir ⊢
    exact ⟨hdir.trans h.workDir, hshows⟩

/-- What holds of an action under the lock holds with the lock around it: taking the lock spares the
ledger, and letting go of it touches no file. -/
theorem underLock_at {α : Type} {action : Action α} {P : Except Error α → FileSystem → Prop}
    (hapart : Apart w.files s.lockPath s.ledgerPath) (h : At R dir s.ledgerPath es w.files)
    (herror : ∀ e files, At R dir s.ledgerPath es files → P (.error e) files)
    (haction : ∀ w', At R dir s.ledgerPath es w'.files →
      P (action.outcome w').1 (action.outcome w').2.files) :
    P ((s.underLock action).outcome w).1 ((s.underLock action).outcome w).2.files := by
  have hspares := @Lock.leads_acquire s.lockPath s.ledgerPath s.lockTimeoutSecs w hapart
  rw [underLock, Lock.outcome_holding]
  rcases hlock : (Lock.acquire s.lockPath s.lockTimeoutSecs).outcome w with ⟨r, w'⟩
  rw [hlock] at hspares
  cases r with
  | error e => exact herror e _ (h.spared hspares)
  | ok g => exact haction w' (h.spared hspares)

/-! ## Acquiring -/

/-- What an acquisition may have done: it appended an asset that keeps clear of all entries, or it
left them. -/
def Acquired (R : Option ByteArray → List Asset → Prop) (dir : List String) (path : String)
    (es : List Asset) : Except Error Asset → FileSystem → Prop
  | .ok a, files => At R dir path (es ++ [a]) files ∧ a.Coherent ∧ ∀ e ∈ es, e.Separate a
  | .error _, files => At R dir path es files

include hR in
theorem reserve_at (h : At R dir s.ledgerPath es w.files) (t : CheckedTemplate) :
    Acquired R dir s.ledgerPath es ((s.reserve t).outcome w).1 ((s.reserve t).outcome w).2.files := by
  have hspec := reserve_spec s t (h.shows.entries hR)
  generalize (s.reserve t).outcome w = outcome at hspec
  cases hspec with
  | unlisted _ hfiles =>
      rw [← hfiles] at h
      exact h
  | exhausted _ _ hfiles =>
      rw [← hfiles] at h
      exact h
  | @found networks a w' _ hallocates hfiles =>
      rw [← hfiles] at h
      have hstore := store_at hR h (es ++ [stampedIn w a])
      rw [outcome_stored]
      rcases houtcome : (Ledger.store s.ledgerPath (es ++ [stampedIn w a])).outcome w' with ⟨r, w''⟩
      rw [houtcome] at hstore
      cases r with
      | error e => exact hstore
      | ok u =>
          cases hallocates with
          | ok _ hfit =>
              refine ⟨hstore, Allocation.coherent_of_firstFit hfit, fun e he => ?_⟩
              exact Allocation.separate_of_firstFit hfit (fun _ => mem_uses_ranges he)
                (fun _ => mem_uses_names he)

include hR in
theorem acquire_at (hapart : Apart w.files s.lockPath s.ledgerPath)
    (h : At R dir s.ledgerPath es w.files) :
    match s.acquire.outcome w with
    | (.ok (a, s'), w') => s' = { s with pending := s.pending ++ [a] } ∧
        At R dir s.ledgerPath (es ++ [a]) w'.files ∧ a.Coherent ∧ ∀ e ∈ es, e.Separate a
    | (.error _, w') => At R dir s.ledgerPath es w'.files := by
  rw [acquire_eq, outcome_bind, outcome_observe]
  cases s.template.check with
  | error e => exact h
  | ok t =>
      have hreserve := underLock_at hapart h (fun _ _ h => h) fun w' h' => reserve_at hR h' t
      simp only [mapError_ok, outcome_bind]
      rcases hlock : (s.underLock (s.reserve t)).outcome w with ⟨r, w'⟩
      rw [hlock] at hreserve
      cases r with
      | error e => exact hreserve
      | ok a => exact ⟨rfl, hreserve⟩

/-! ## Giving back -/

/-- What giving back may have done: it removed the entries of the session and counted them, or it
left all entries. -/
def GaveBack (R : Option ByteArray → List Asset → Prop) (dir : List String) (s : Session)
    (es : List Asset) : Except Error Nat → FileSystem → Prop
  | .ok n, files => At R dir s.ledgerPath (s.others es) files ∧
      n = es.length - (s.others es).length
  | .error _, files => At R dir s.ledgerPath es files

include hR in
theorem giveBack_at (h : At R dir s.ledgerPath es w.files) :
    GaveBack R dir s es (s.giveBack.outcome w).1 (s.giveBack.outcome w).2.files := by
  have hstore := store_at hR h (s.others es)
  rw [giveBack, outcome_bind_ok (outcome_load_of_entries (h.shows.entries hR)), outcome_bind]
  rcases houtcome : (Ledger.store s.ledgerPath (s.others es)).outcome w with ⟨r, w'⟩
  rw [houtcome] at hstore
  cases r with
  | error e => exact hstore
  | ok u => exact ⟨hstore, rfl⟩

theorem others_of_pending_nil (h : s.pending = []) (es : List Asset) : s.others es = es := by
  simp [others, h]

/-- The session with more assets pending. -/
def owing (s : Session) (assets : List Asset) : Session :=
  { s with pending := s.pending ++ assets }

/-- Entries that are acquired are given back with those that were pending before. -/
theorem others_owing {assets : List Asset} (hnew : ∀ a ∈ assets, a ∉ es) :
    (s.owing assets).others (es ++ assets) = s.others es := by
  rw [others, List.filter_append]
  have hdrop : (assets.filter fun e => !(s.owing assets).pending.contains e) = [] := by
    refine List.filter_eq_nil_iff.mpr fun e he => ?_
    simp [owing, he]
  rw [hdrop, List.append_nil]
  refine List.filter_congr fun e he => ?_
  have hfresh : e ∉ assets := fun hmem => hnew e hmem he
  simp [owing, hfresh]

include hR in
theorem releaseAll_at (hapart : Apart w.files s.lockPath s.ledgerPath)
    (h : At R dir s.ledgerPath es w.files) :
    match s.releaseAll.outcome w with
    | (.ok (n, s'), w') => s' = { s with pending := [] } ∧
        At R dir s.ledgerPath (s.others es) w'.files ∧ n = es.length - (s.others es).length
    | (.error _, w') => At R dir s.ledgerPath es w'.files := by
  rw [releaseAll_eq]
  by_cases hpending : s.pending = []
  · rw [if_pos (by simp [hpending])]
    refine ⟨?_, ?_, ?_⟩
    · rw [← hpending]
    · rwa [others_of_pending_nil hpending]
    · rw [others_of_pending_nil hpending]
      omega
  · have hback := underLock_at hapart h (fun _ _ h => h) fun w' h' => giveBack_at hR h'
    rw [if_neg (by simpa using hpending), outcome_bind]
    rcases hlock : (s.underLock s.giveBack).outcome w with ⟨r, w'⟩
    rw [hlock] at hback
    cases r with
    | error e => exact hback
    | ok n => exact ⟨rfl, hback⟩

/-- With a free lock and a ledger that loads, giving back fails only if writing the ledger does. -/
theorem outcome_releaseAll {w' : World} {g : Guard} (hpending : s.pending ≠ [])
    (hlock : (Lock.acquire s.lockPath s.lockTimeoutSecs).outcome w = (.ok g, w'))
    (hledger : entries w'.files s.ledgerPath = .ok es) :
    s.releaseAll.outcome w =
      match (Ledger.store s.ledgerPath (s.others es)).outcome w' with
      | (.ok _, w₁) =>
        (.ok (es.length - (s.others es).length, { s with pending := [] }), w₁.release g)
      | (.error e, w₁) => (.error e, w₁.release g) := by
  have hload := outcome_load_of_entries hledger
  rw [releaseAll_eq, if_neg (by simpa using hpending)]
  simp only [outcome_bind, underLock, Lock.outcome_holding, hlock, giveBack, hload]
  rcases (Ledger.store s.ledgerPath (s.others es)).outcome w' with ⟨_ | _, w₁⟩
  · rfl
  · rfl

/-! ## Reading and removing -/

include hR in
theorem snapshot_at (hapart : Apart w.files s.lockPath s.ledgerPath)
    (h : At R dir s.ledgerPath es w.files) :
    (∀ es', (s.snapshot.outcome w).1 = .ok es' → es' = es) ∧
      At R dir s.ledgerPath es (s.snapshot.outcome w).2.files := by
  refine underLock_at (P := fun r files => (∀ es', r = .ok es' → es' = es) ∧ At R dir _ es files)
    hapart h (fun e files h => ⟨nofun, h⟩) fun w' h' => ?_
  rw [outcome_load_of_entries (h'.shows.entries hR)]
  exact ⟨fun es' he => (Except.ok.inj he).symm, h'⟩

/-- With a free lock and a ledger that loads, an entry of that name is removed unless writing the ledger
fails. -/
theorem outcome_reclaim {w' : World} {g : Guard} (name : String)
    (hlock : (Lock.acquire s.lockPath s.lockTimeoutSecs).outcome w = (.ok g, w'))
    (hledger : entries w'.files s.ledgerPath = .ok es) :
    (s.reclaim name).outcome w =
      match es.find? (·.networkIf = name) with
      | none => (.ok none, w'.release g)
      | some a =>
        match (Ledger.store s.ledgerPath (es.eraseP (·.networkIf = name))).outcome w' with
        | (.ok _, w₁) => (.ok (some a), w₁.release g)
        | (.error e, w₁) => (.error e, w₁.release g) := by
  rw [reclaim, underLock, Lock.outcome_holding, hlock]
  simp only [outcome_bind_ok (outcome_load_of_entries hledger)]
  cases es.find? (·.networkIf = name) with
  | none => rfl
  | some a =>
      simp only [outcome_bind]
      rcases (Ledger.store s.ledgerPath (es.eraseP (·.networkIf = name))).outcome w' with ⟨_ | _, w₁⟩
      · rfl
      · rfl

/-- What a reclaim may have done: it removed the first entry with that primary bridge, or it left
all entries. -/
def Reclaimed (R : Option ByteArray → List Asset → Prop) (dir : List String) (path : String)
    (es : List Asset) (name : String) : Except Error (Option Asset) → FileSystem → Prop
  | .ok (some a), files => es.find? (·.networkIf = name) = some a ∧
      At R dir path (es.eraseP (·.networkIf = name)) files
  | .ok none, files => es.find? (·.networkIf = name) = none ∧ At R dir path es files
  | .error _, files => At R dir path es files

include hR in
theorem reclaim_at (hapart : Apart w.files s.lockPath s.ledgerPath)
    (h : At R dir s.ledgerPath es w.files) (name : String) :
    Reclaimed R dir s.ledgerPath es name ((s.reclaim name).outcome w).1
      ((s.reclaim name).outcome w).2.files := by
  refine underLock_at hapart h (fun _ _ h => h) fun w' h' => ?_
  rw [outcome_bind_ok (outcome_load_of_entries (h'.shows.entries hR))]
  cases hfind : es.find? (·.networkIf = name) with
  | none => exact ⟨hfind, h'⟩
  | some a =>
      have hstore := store_at hR h' (es.eraseP (·.networkIf = name))
      simp only [outcome_bind]
      rcases houtcome : (Ledger.store s.ledgerPath (es.eraseP (·.networkIf = name))).outcome w' with
        ⟨r, w''⟩
      rw [houtcome] at hstore
      cases r with
      | error e => exact hstore
      | ok u => exact ⟨hfind, hstore⟩

end Session

end NetPool
