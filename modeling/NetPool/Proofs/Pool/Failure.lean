import NetPool.Proofs.Pool.Run

/-! # Operations that fail

An operation that fails leaves the sessions as they were, and the ledger file, too: besides making
directories, all that it may have changed is the lock file. The same goes for operations that find
nothing to be written. -/

namespace NetPool

namespace Session

open NetPool.Effect NetPool.Action FileSystem

variable {α : Type} {P : Except Error α → Prop} {s : Session} {w w' : World} {path other : String}
  {es : List Asset}

/-- A ledger that cannot be stored is left. -/
theorem confined_store {e : Error} (h : (Ledger.store path es).outcome w = (.error e, w')) :
    Confined other w.files w'.files := by
  cases es with
  | nil =>
      rw [Ledger.store, outcome_onFiles] at h
      split at h
      · cases h
      · cases h
        exact .refl other w.files
  | cons a es =>
      have hparents := confined_makeParents w.files other path
      rw [Ledger.store, outcome_bind, outcome_changingFiles] at h
      cases hmade : (w.files.makeParents path).1 with
      | error e' =>
          rw [hmade] at h
          cases h
          exact hparents
      | ok u =>
          rw [hmade] at h
          simp only [mapError_ok, outcome_onFiles] at h
          split at h
          · cases h
          · cases h
            exact hparents

theorem confined_stored {a : α} (ha : ¬ P (.ok a))
    (h : P ((do Ledger.store path es; return a : Action α).outcome w).1) :
    Confined other w.files ((do Ledger.store path es; return a : Action α).outcome w).2.files := by
  rw [outcome_bind] at h ⊢
  rcases hstore : (Ledger.store path es).outcome w with ⟨r, w'⟩
  rw [hstore] at h
  cases r with
  | ok u => exact absurd h ha
  | error e => exact confined_store hstore

theorem confined_loaded {f : List Asset → Action α}
    (hf : ∀ es, P ((f es).outcome w).1 → Confined other w.files ((f es).outcome w).2.files)
    (h : P ((Ledger.load path >>= f).outcome w).1) :
    Confined other w.files ((Ledger.load path >>= f).outcome w).2.files := by
  cases hentries : Ledger.entries w.files path with
  | error e =>
      rw [outcome_bind_error (Ledger.outcome_load_of_error hentries)]
      exact .refl other w.files
  | ok es =>
      rw [outcome_bind_ok (Ledger.outcome_load_of_entries hentries)] at h ⊢
      exact hf es h

/-- Taking the lock and letting go of it adds nothing but changes of the lock file. -/
theorem confined_underLock {action : Action α}
    (haction : ∀ w', P (action.outcome w').1 →
      Confined s.lockPath w'.files (action.outcome w').2.files)
    (h : P ((s.underLock action).outcome w).1) :
    Confined s.lockPath w.files ((s.underLock action).outcome w).2.files := by
  have hlock := Lock.confined_acquire s.lockPath s.lockTimeoutSecs w
  rw [underLock, Lock.outcome_holding] at h ⊢
  rcases houtcome : (Lock.acquire s.lockPath s.lockTimeoutSecs).outcome w with ⟨r, w'⟩
  rw [houtcome] at hlock h
  cases r with
  | error e => exact hlock
  | ok g => exact hlock.trans (haction w' h)

/-- The failure that an operation ends with. -/
def failure? : Except Error α → Option Error
  | .ok _ => none
  | .error e => some e

/-- The operation fails. -/
def Fails (r : Except Error α) : Prop := ∃ e, failure? r = some e

theorem not_fails_ok (a : α) : ¬ Fails (.ok a : Except Error α) := fun ⟨_, h⟩ => by cases h

/-- What is returned after that does not matter. -/
theorem confined_locked {β : Type} {action : Action α} (f : α → β)
    (haction : ∀ w', Fails (action.outcome w').1 →
      Confined s.lockPath w'.files (action.outcome w').2.files)
    (h : Fails ((s.underLock action >>= fun a => pure (f a)).outcome w).1) :
    Confined s.lockPath w.files ((s.underLock action >>= fun a => pure (f a)).outcome w).2.files := by
  have hlock := confined_underLock (w := w) haction
  rw [outcome_bind] at h ⊢
  rcases houtcome : (s.underLock action).outcome w with ⟨r, w'⟩
  rw [houtcome] at h hlock
  cases r with
  | ok a => exact absurd h (not_fails_ok _)
  | error e => exact hlock ⟨e, rfl⟩

theorem confined_reserve {t : CheckedTemplate} (h : Fails ((s.reserve t).outcome w).1) :
    Confined s.lockPath w.files ((s.reserve t).outcome w).2.files := by
  cases hentries : Ledger.entries w.files s.ledgerPath with
  | error e =>
      rw [reserve, outcome_bind_error (Ledger.outcome_load_of_error hentries)]
      exact .refl s.lockPath w.files
  | ok es =>
      have hspec := reserve_spec s t hentries
      generalize (s.reserve t).outcome w = outcome at h hspec
      cases hspec with
      | unlisted _ hfiles =>
          rw [hfiles]
          exact .refl s.lockPath w.files
      | exhausted _ _ hfiles =>
          rw [hfiles]
          exact .refl s.lockPath w.files
      | found _ _ hfiles =>
          rw [← hfiles]
          exact confined_stored (not_fails_ok _) h

theorem confined_acquire (h : Fails (s.acquire.outcome w).1) :
    Confined s.lockPath w.files (s.acquire.outcome w).2.files := by
  rw [acquire_eq, outcome_bind, outcome_observe] at h ⊢
  cases hcheck : s.template.check with
  | error e => exact .refl s.lockPath w.files
  | ok t =>
      rw [hcheck] at h
      exact confined_locked _ (fun w₁ => confined_reserve) h

theorem confined_releaseAll (h : Fails (s.releaseAll.outcome w).1) :
    Confined s.lockPath w.files (s.releaseAll.outcome w).2.files := by
  rw [releaseAll_eq] at h ⊢
  split
  · exact .refl s.lockPath w.files
  · rename_i hpending
    rw [if_neg hpending] at h
    have hgiven : ∀ w₁, Fails (s.giveBack.outcome w₁).1 →
        Confined s.lockPath w₁.files (s.giveBack.outcome w₁).2.files :=
      fun w₁ => confined_loaded fun es => confined_stored (not_fails_ok _)
    exact confined_locked _ hgiven h

theorem confined_snapshot (s : Session) (w : World) :
    Confined s.lockPath w.files (s.snapshot.outcome w).2.files :=
  confined_underLock (P := fun _ => True) (fun w' _ => .refl s.lockPath w'.files) trivial

/-- No entry is returned. -/
def FindsNone (r : Except Error (Option Asset)) : Prop := ∀ a, r ≠ .ok (some a)

theorem confined_reclaim {name : String} (h : FindsNone ((s.reclaim name).outcome w).1) :
    Confined s.lockPath w.files ((s.reclaim name).outcome w).2.files := by
  refine confined_underLock (P := FindsNone) (fun w' => ?_) h
  refine confined_loaded (P := FindsNone) fun es hr => ?_
  cases hfind : es.find? (·.networkIf = name) with
  | none => exact .refl s.lockPath w'.files
  | some a =>
      rw [hfind] at hr
      exact confined_stored (P := FindsNone) (fun hok => hok a rfl) hr

end Session

namespace Pool

open NetPool.Effect FileSystem

variable {ι : Type} [DecidableEq ι]

/-- The failure that a single operation ends with. -/
def failure? (p : Pool ι) : Op ι → Option Error
  | .acquire i => Session.failure? (p.perform i .acquire).1
  | .releaseAll i => Session.failure? (p.perform i .releaseAll).1
  | .reclaim i networkIf => Session.failure? (p.perform i (.act (·.reclaim networkIf))).1
  | .snapshot i => Session.failure? (p.perform i (.act (·.snapshot))).1
  | .borrow .. | .rescan .. | .outside _ => none

theorem failure?_reclaim (p : Pool ι) (i : ι) (networkIf : String) :
    p.failure? (.reclaim i networkIf) =
      Session.failure? (((p.sessions i).reclaim networkIf).outcome p.world).1 := by
  rw [failure?, perform_act]

/-- The operation is one of the session's own. -/
def Op.By (i : ι) : Op ι → Prop
  | .acquire j | .releaseAll j | .reclaim j _ | .snapshot j => j = i
  | .borrow .. | .rescan .. | .outside _ => False

/-- All sessions are as they were, pending entries included, and so is the ledger file of this one:
it has the same content, or there is none as before. -/
structure Untouched (i : ι) (p p' : Pool ι) : Prop where
  sessions : p'.sessions = p.sessions
  ledger : p'.world.files.bytes? (p.sessions i).ledgerPath =
    p.world.files.bytes? (p.sessions i).ledgerPath

theorem step_of_failure {p : Pool ι} {i : ι} {op : Op ι} {e : Error} (hby : op.By i)
    (h : p.failure? op = some e) :
    (p.step op).sessions = p.sessions ∧
      Confined (p.sessions i).lockPath p.world.files (p.step op).world.files := by
  cases op with
  | acquire j =>
      obtain rfl : j = i := hby
      rw [failure?, perform_acquire] at h
      rw [step, perform_acquire]
      have hconfined := @Session.confined_acquire (p.sessions j) p.world
      rcases houtcome : (p.sessions j).acquire.outcome p.world with ⟨e' | ⟨a, s⟩, w⟩
      · rw [houtcome] at hconfined
        exact ⟨rfl, hconfined ⟨e', rfl⟩⟩
      · rw [houtcome] at h
        cases h
  | releaseAll j =>
      obtain rfl : j = i := hby
      rw [failure?, perform_releaseAll] at h
      rw [step, perform_releaseAll]
      have hconfined := @Session.confined_releaseAll (p.sessions j) p.world
      rcases houtcome : (p.sessions j).releaseAll.outcome p.world with ⟨e' | ⟨n, s⟩, w⟩
      · rw [houtcome] at hconfined
        exact ⟨rfl, hconfined ⟨e', rfl⟩⟩
      · rw [houtcome] at h
        cases h
  | reclaim j name =>
      obtain rfl : j = i := hby
      rw [failure?_reclaim] at h
      rw [step, perform_act]
      refine ⟨rfl, Session.confined_reclaim fun a ha => ?_⟩
      rw [ha] at h
      cases h
  | snapshot j =>
      obtain rfl : j = i := hby
      rw [step, perform_act]
      exact ⟨rfl, Session.confined_snapshot _ _⟩
  | borrow j count body => exact absurd hby id
  | rescan j interfaces => exact absurd hby id
  | outside f => exact absurd hby id

/-- If what the ledger of a session reads as does not depend on missing directories, as with a plain
path: whenever an operation of the session fails, be it for the ledger that must not be written, no
session has changed, nor has the ledger file, and neither do they when a ledger is only looked at or no
entry is found. A template that is not valid, and nothing to be given back, have no effect at all. -/
theorem untouched_of_failure (p : Pool ι) (i : ι)
    (hapart : Apart p.world.files (p.sessions i).lockPath (p.sessions i).ledgerPath)
    (hstable : Plain (p.sessions i).ledgerPath ∧ p.world.files.Rooted ∨
      (p.world.files.makeParents (p.sessions i).ledgerPath).2.bytes? (p.sessions i).ledgerPath =
        p.world.files.bytes? (p.sessions i).ledgerPath) :
    (∀ op e, op.By i → p.failure? op = some e → Untouched i p (p.step op)) ∧
      Untouched i p (p.step (.snapshot i)) ∧
      (∀ name, (((p.sessions i).reclaim name).outcome p.world).1 = .ok none →
        Untouched i p (p.step (.reclaim i name))) ∧
      (∀ e, (p.sessions i).template.check = .error e →
        p.failure? (.acquire i) = some (.template e) ∧ p.step (.acquire i) = p) ∧
      (p.pending i = [] → p.failure? (.releaseAll i) = none ∧ p.step (.releaseAll i) = p) := by
  have hmade : (p.world.files.makeParents (p.sessions i).ledgerPath).2.bytes?
      (p.sessions i).ledgerPath = p.world.files.bytes? (p.sessions i).ledgerPath := by
    rcases hstable with ⟨hplain, hrooted⟩ | hmade
    · exact bytes?_makeParents hplain hrooted
    · exact hmade
  have hledger : ∀ {files}, Confined (p.sessions i).lockPath p.world.files files →
      files.bytes? (p.sessions i).ledgerPath = p.world.files.bytes? (p.sessions i).ledgerPath :=
    fun hconfined => hconfined.bytes?_eq hapart hmade
  refine ⟨fun op e hby hfails => ?_, ?_, fun name hnone => ?_, fun e hcheck => ?_, fun hidle => ?_⟩
  · obtain ⟨hsessions, hconfined⟩ := step_of_failure hby hfails
    exact ⟨hsessions, hledger hconfined⟩
  · rw [step, perform_act]
    exact ⟨rfl, hledger (Session.confined_snapshot _ _)⟩
  · rw [step, perform_act]
    refine ⟨rfl, hledger (Session.confined_reclaim fun a ha => ?_)⟩
    rw [hnone] at ha
    cases ha
  · rw [failure?, step, perform_acquire, Session.outcome_acquire_of_fault hcheck]
    exact ⟨rfl, rfl⟩
  · have hnothing : (p.sessions i).releaseAll.outcome p.world = (.ok (0, p.sessions i), p.world) := by
      rw [pending] at hidle
      rw [Session.releaseAll_eq, if_pos (by simp [hidle])]
      rfl
    rw [failure?, step, perform_releaseAll, hnothing]
    exact ⟨rfl, put_self p i p.world⟩

/-- A session with one of two entries pending, and a ledger that cannot be written. -/
def frozen : Pool Unit where
  sessions _ := { Session.plain "ledger" "l" 1 with pending := [Session.lodger] }
  world := (Session.keeping [Session.guest, Session.lodger]).withFiles
    { (Session.keeping [Session.guest, Session.lodger]).files with
      refusal? := fun names _ => if names = ["ledger"] then some .readOnly else none }

theorem frozen_fails :
    Ledger.entries frozen.world.files "ledger" = .ok [Session.guest, Session.lodger] ∧
      frozen.failure? (.acquire ()) = some (.io .readOnly) ∧
      frozen.failure? (.releaseAll ()) = some (.io .readOnly) ∧
      (((frozen.sessions ()).reclaim "guest").outcome frozen.world).1 = .error (.io .readOnly) := by
  obtain ⟨t, g, w, w₁, w₂, w₃, htemplate, hlock, hread, hreserve, hgive, hremove⟩ :
      ∃ t g w w₁ w₂ w₃, (frozen.sessions ()).template.check = .ok t ∧
        (Lock.acquire "l" 0).outcome frozen.world = (.ok g, w) ∧
        w.files.read "ledger" = .ok (Ledger.encode [Session.guest, Session.lodger]) ∧
        ((frozen.sessions ()).reserveFrom t [Session.guest, Session.lodger]).outcome w =
          (.error (.io .readOnly), w₁) ∧
        (Ledger.store "ledger" [Session.guest]).outcome w = (.error (.io .readOnly), w₂) ∧
        (Ledger.store "ledger" [Session.lodger]).outcome w = (.error (.io .readOnly), w₃) :=
    ⟨_, _, _, _, _, _, rfl, rfl, rfl, rfl, rfl, rfl⟩
  have hbefore : frozen.world.files.read "ledger" =
      .ok (Ledger.encode [Session.guest, Session.lodger]) := rfl
  have hledger : Ledger.entries w.files "ledger" = .ok [Session.guest, Session.lodger] :=
    (Ledger.entries_of_content hread).trans (Ledger.decode_encode _)
  refine ⟨(Ledger.entries_of_content hbefore).trans (Ledger.decode_encode _), ?_, ?_, ?_⟩
  · have hacquire := Session.outcome_acquire (frozen.sessions ()) htemplate hlock
    rw [Session.outcome_reserve t hledger, hreserve] at hacquire
    rw [failure?, perform_acquire, hacquire]
    rfl
  · have hrelease := Session.outcome_releaseAll (s := frozen.sessions ())
      (List.cons_ne_nil Session.lodger []) hlock hledger
    rw [show (frozen.sessions ()).others [Session.guest, Session.lodger] = [Session.guest] from rfl,
      show (frozen.sessions ()).ledgerPath = "ledger" from rfl, hgive] at hrelease
    rw [failure?, perform_releaseAll, hrelease]
    rfl
  · have hreclaim := Session.outcome_reclaim (s := frozen.sessions ()) "guest" hlock hledger
    rw [show List.find? (·.networkIf = "guest") [Session.guest, Session.lodger] =
        some Session.guest from rfl,
      show List.eraseP (·.networkIf = "guest") [Session.guest, Session.lodger] = [Session.lodger]
        from rfl, show (frozen.sessions ()).ledgerPath = "ledger" from rfl] at hreclaim
    simp only [hremove] at hreclaim
    rw [hreclaim]

/-- None of the operations that write gets through, and the entry that was pending is pending still. -/
theorem untouched_of_failure_frozen :
    (frozen.failure? (.acquire ()) = some (.io .readOnly) ∧
        Untouched () frozen (frozen.step (.acquire ()))) ∧
      (frozen.failure? (.releaseAll ()) = some (.io .readOnly) ∧
        Untouched () frozen (frozen.step (.releaseAll ()))) ∧
      (frozen.failure? (.reclaim () "guest") = some (.io .readOnly) ∧
        Untouched () frozen (frozen.step (.reclaim () "guest"))) ∧
      (frozen.step (.releaseAll ())).pending () = [Session.lodger] := by
  obtain ⟨_, hacquire, hrelease, hrefused⟩ := frozen_fails
  have hreclaim : frozen.failure? (.reclaim () "guest") = some (.io .readOnly) :=
    (failure?_reclaim frozen () "guest").trans (congrArg Session.failure? hrefused)
  have hread : frozen.world.files.read "ledger" =
      .ok (Ledger.encode [Session.guest, Session.lodger]) := rfl
  have hstable := (bytes?_eq_some.mpr (read_makeParents hread).2).trans
    (bytes?_eq_some.mpr hread).symm
  obtain ⟨hfailure, _⟩ := untouched_of_failure frozen () (Session.apart_plain rfl) (.inr hstable)
  have huntouched := hfailure (.releaseAll ()) _ rfl hrelease
  refine ⟨⟨hacquire, hfailure _ _ rfl hacquire⟩, ⟨hrelease, huntouched⟩,
    ⟨hreclaim, hfailure _ _ rfl hreclaim⟩, ?_⟩
  rw [pending, huntouched.sessions]
  rfl

/-- Where nothing could be read for want of a directory, there is a file to be read after an
acquisition that failed. -/
theorem hidden_is_touched :
    Apart (hidden .empty).world.files "x/lock" "x/../h" ∧
      (hidden .empty).failure? (.acquire ()) = some (.exhausted ⟨.machineCidr, 0⟩) ∧
      (hidden .empty).world.files.bytes? "x/../h" = none ∧
      ((hidden .empty).step (.acquire ())).world.files.bytes? "x/../h" = some .empty :=
  ⟨⟨by decide, by decide, by decide⟩, rfl, rfl, rfl⟩

end Pool
end NetPool
