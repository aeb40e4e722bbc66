import NetPool.Proofs.Ledger.Torn
import NetPool.Proofs.Lock.Outcome
import NetPool.Proofs.Session.Acquire

/-! # Sessions and torn ledgers

No operation of a session gets past a ledger that cannot be read, or changes it. The lock must not be
in the place of the ledger for that, or else nobody may hold it. -/

namespace NetPool.Session

open NetPool.Effect NetPool.Action FileSystem Ledger

variable {α β : Type} {s : Session} {w : World} {content : ByteArray} {e : Error}

/-- The lock of the session is not in the place of its ledger, or nobody holds the ledger file. -/
def SparesLedger (s : Session) (w : World) : Prop :=
  w.files.placeOf s.lockPath = w.files.placeOf s.ledgerPath →
    ∀ file, w.files.fileId s.ledgerPath = .ok file → w.isHeld file = false

/-- An operation failed and left the content of the ledger. If the lock could be taken, it failed for
that reason. -/
structure Refused (s : Session) (w : World) (content : ByteArray) (e : Error)
    (outcome : Except Error α × World) : Prop where
  fails : ∃ e', outcome.1 = .error e'
  reason : Lock.Usable s.lockPath s.lockTimeoutSecs w → outcome.1 = .error e
  read : outcome.2.files.read s.ledgerPath = .ok content

/-- Whatever starts with loading the ledger fails with it, and the file is as before. -/
theorem refused_underLock {action : Action α} (hspares : s.SparesLedger w)
    (hread : w.files.read s.ledgerPath = .ok content) (hdecode : decode content = .error e)
    (haction : ∀ w', entries w'.files s.ledgerPath = .error e → action.outcome w' = (.error e, w')) :
    Refused s w content e ((s.underLock action).outcome w) := by
  obtain ⟨file, hlook⟩ := look_of_read hread
  have hkept : ((Lock.acquire s.lockPath s.lockTimeoutSecs).outcome w).2.files.look s.ledgerPath = _ :=
    Lock.look_after_acquire hlook fun hplace => hspares hplace file (fileId_of_look hlook)
  rw [underLock, Lock.outcome_holding]
  rcases houtcome : (Lock.acquire s.lockPath s.lockTimeoutSecs).outcome w with ⟨r, w'⟩
  rw [houtcome] at hkept
  have hread' : w'.files.read s.ledgerPath = .ok content := by rw [FileSystem.read, hkept]
  cases r with
  | error e' =>
      refine ⟨⟨e', rfl⟩, ?_, hread'⟩
      rintro ⟨g, w'', husable⟩
      rw [houtcome] at husable
      cases husable
  | ok g =>
      dsimp only
      rw [haction w' ((entries_of_content hread').trans hdecode)]
      exact ⟨⟨e, rfl⟩, fun _ => rfl, hread'⟩

theorem Refused.bind {action : Action α} (h : Refused s w content e (action.outcome w))
    (f : α → Action β) : Refused s w content e ((action >>= f).outcome w) := by
  obtain ⟨e', hfails⟩ := h.fails
  have hreason := h.reason
  have hread := h.read
  rcases houtcome : action.outcome w with ⟨r, w'⟩
  rw [houtcome] at hfails hreason hread
  obtain rfl : r = .error e' := hfails
  rw [outcome_bind_error houtcome]
  exact ⟨⟨e', rfl⟩, fun husable => congrArg _ (Except.error.inj (hreason husable)), hread⟩

theorem outcome_load_bind_of_error {path : String} (f : List Asset → Action α) {w : World}
    (h : entries w.files path = .error e) :
    (Ledger.load path >>= f).outcome w = (.error e, w) :=
  outcome_bind_error (outcome_load_of_error h) f

/-- No operation gets past a ledger of which the content cannot be decoded. -/
structure RefusesAll (s : Session) (w : World) (content : ByteArray) (e : Error) : Prop where
  acquire : (∃ t, s.template.check = .ok t) → Refused s w content e (s.acquire.outcome w)
  invalid : ∀ fault, s.template.check = .error fault →
    s.acquire.outcome w = (.error (.template fault), w)
  releaseAll : s.pending ≠ [] → Refused s w content e (s.releaseAll.outcome w)
  reclaim : ∀ name, Refused s w content e ((s.reclaim name).outcome w)
  snapshot : Refused s w content e (s.snapshot.outcome w)

theorem refusesAll_of_error (hspares : s.SparesLedger w)
    (hread : w.files.read s.ledgerPath = .ok content) (hdecode : decode content = .error e) :
    RefusesAll s w content e where
  acquire := by
    rintro ⟨t, htemplate⟩
    have hlocked : Refused s w content e ((s.underLock (s.reserve t)).outcome w) :=
      refused_underLock hspares hread hdecode fun w' hw' => outcome_load_bind_of_error _ hw'
    rw [Session.acquire_eq, outcome_bind, outcome_observe, htemplate]
    exact hlocked.bind _
  invalid fault htemplate := outcome_acquire_of_fault htemplate w
  releaseAll hpending := by
    have hlocked : Refused s w content e ((s.underLock s.giveBack).outcome w) :=
      refused_underLock hspares hread hdecode fun w' hw' => outcome_load_bind_of_error _ hw'
    rw [Session.releaseAll_eq, if_neg (by simpa using hpending)]
    exact hlocked.bind _
  reclaim name := refused_underLock hspares hread hdecode fun w' hw' =>
    outcome_load_bind_of_error _ hw'
  snapshot := refused_underLock hspares hread hdecode fun w' hw' => outcome_load_of_error hw'

/-- Of the content that is written for entries, a part is never read as fewer entries. Without the last
line feed it loads as all of them. Any shorter part that is not empty fails to load, as no list or for
ending within a character, and every operation of a session fails with it and leaves it, unless the
lock of the session is in the place of the ledger and somebody holds it. -/
theorem torn_ledger_refused {es : List Asset} {b tail : ByteArray}
    (hwritten : image? es = some (b ++ tail)) :
    (tail = "\n".toUTF8 → ∀ path w, w.files.read path = .ok b →
      (Ledger.load path).outcome w = (.ok es, w)) ∧
    (b ≠ .empty → tail ≠ .empty → tail ≠ "\n".toUTF8 →
      ∃ e, ((∃ text fault, b = String.toUTF8 text ∧ e = .malformed fault) ∨
          (∀ text : String, b ≠ text.toUTF8) ∧ e = .io .invalidUtf8) ∧
        ∀ path w, w.files.read path = .ok b → (Ledger.load path).outcome w = (.error e, w) ∧
          ∀ s : Session, s.ledgerPath = path → s.SparesLedger w → RefusesAll s w b e) := by
  have hsplit : b ++ tail = encode es := by
    cases es with
    | nil => cases hwritten
    | cons a es => exact (Option.some.inj hwritten).symm
  refine ⟨fun hfeed path w hread => ?_, fun hb htail hfeed => ?_⟩
  · rw [hfeed] at hsplit
    exact outcome_load_of_entries ((entries_of_content hread).trans (decode_unended hsplit))
  · obtain ⟨e, hfault, hdecode⟩ : ∃ e, ((∃ text fault, b = String.toUTF8 text ∧ e = .malformed fault) ∨
        (∀ text : String, b ≠ text.toUTF8) ∧ e = .io .invalidUtf8) ∧ decode b = .error e := by
      rcases decode_torn hsplit hb htail hfeed with ⟨text, fault, htext, hdecode⟩ | ⟨hinside, hdecode⟩
      · exact ⟨_, .inl ⟨text, fault, htext, rfl⟩, hdecode⟩
      · exact ⟨_, .inr ⟨hinside, rfl⟩, hdecode⟩
    refine ⟨e, hfault, fun path w hread => ⟨?_, fun s hpath hspares => ?_⟩⟩
    · exact outcome_load_of_error ((entries_of_content hread).trans hdecode)
    · exact refusesAll_of_error hspares (hpath ▸ hread) hdecode

/-- A file with the opening bracket only, as the start of what is written for an entry. -/
theorem torn_ledger_refused_bracket :
    ∃ es tail, image? es = some ("[".toUTF8 ++ tail) ∧
      ∃ e w, w.files.read "ledger" = .ok "[".toUTF8 ∧
        RefusesAll (plain "ledger" "l" 1) w "[".toUTF8 e := by
  obtain ⟨tail, hencode, htail, hfeed⟩ := exists_tail_of_bracket [intricate]
  have hwritten : image? [intricate] = some ("[".toUTF8 ++ tail) := congrArg some hencode
  obtain ⟨e, -, hrefuses⟩ := (torn_ledger_refused hwritten).2 (by decide) htail hfeed
  let w := quiet ((FileSystem.empty []).set ["ledger"] (some (.file 0 "[".toUTF8)))
  have hspares : (plain "ledger" "l" 1).SparesLedger w := fun hsame => absurd hsame (by decide)
  exact ⟨_, _, hwritten, e, w, rfl, (hrefuses "ledger" w rfl).2 _ rfl hspares⟩

/-- A session with its lock in the place of a torn ledger that somebody holds breaks the lock, and then
finds no ledger. -/
theorem torn_ledger_broken :
    ∃ es tail, image? es = some ("[".toUTF8 ++ tail) ∧ tail ≠ .empty ∧ tail ≠ "\n".toUTF8 ∧
      ∃ w, w.files.read "l" = .ok "[".toUTF8 ∧
        ∃ a s w', (plain "l" "l" 1).acquire.outcome w = (.ok (a, s), w') := by
  obtain ⟨tail, hencode, htail, hfeed⟩ := exists_tail_of_bracket [intricate]
  have hwritten : image? [intricate] = some ("[".toUTF8 ++ tail) := congrArg some hencode
  let w := { quiet { (FileSystem.empty []).set ["l"] (some (.file 0 "[".toUTF8)) with nextId := 1 } with
    guards := [⟨0, 0⟩]
    nextGuard := 1 }
  exact ⟨_, _, hwritten, htail, hfeed, w, rfl, _, _, _, rfl⟩

end NetPool.Session
