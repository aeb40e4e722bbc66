import NetPool.Proofs.Pool.Failure
import NetPool.Proofs.Session.Borrow

/-! # Reclaiming

Whoever reclaims a bridge removes the first entry that has it as its primary one, and nothing else.
After an acquisition, that is the entry that was acquired, since no entry before it has a bridge of
its name. -/

namespace NetPool

namespace Ledger

open FileSystem

/-- What a path reads as stays when the path is spared, if it does not depend on missing
directories. -/
theorem read_spared {files files' : FileSystem} {path : String}
    (hstable : (files.makeParents path).2.read path = files.read path)
    (hread : ∀ e, files.read path = .error e → e = .notFound) (hspares : Spares path files files') :
    files'.read path = files.read path := by
  cases hfault : textFault? path with
  | some e => rw [read_of_textFault? hfault, read_of_textFault? hfault]
  | none =>
      obtain ⟨dirs, name, content?, hslot, hmade⟩ :=
        exists_slot hfault fun e he => hread e (hstable.symm.trans he)
      by_cases hopen : Open files' path dirs
      · exact ((hslot.spared hspares).read hopen).trans (hmade.symm.trans hstable)
      · have hclosed : ¬ Open files path dirs := fun h => hopen (h.spared hslot hspares)
        rw [(hslot.spared hspares).read_of_not_open hopen, hslot.read_of_not_open hclosed]

end Ledger

namespace Session

open NetPool.Effect NetPool.Action FileSystem Ledger

variable {s : Session} {es : List Asset} {w w₁ : World} {g : Guard} {name : String}

/-! ## What is removed -/

theorem find?_first {first rest : List Asset} {a : Asset}
    (hfirst : ∀ e ∈ first, e.networkIf ≠ name) (hname : a.networkIf = name) :
    (first ++ a :: rest).find? (·.networkIf = name) = some a := by
  rw [List.find?_append, List.find?_eq_none.mpr fun e he => by simpa using hfirst e he,
    List.find?_cons_of_pos (by simpa using hname)]
  rfl

theorem eraseP_first {first rest : List Asset} {a : Asset}
    (hfirst : ∀ e ∈ first, e.networkIf ≠ name) (hname : a.networkIf = name) :
    (first ++ a :: rest).eraseP (·.networkIf = name) = first ++ rest := by
  rw [List.eraseP_append_right _ fun e he => by simpa using hfirst e he,
    List.eraseP_cons_of_pos (by simpa using hname)]

/-- Without an entry of that name, nothing is done under the lock. -/
theorem outcome_reclaim_of_none
    (hlock : (Lock.acquire s.lockPath s.lockTimeoutSecs).outcome w = (.ok g, w₁))
    (hledger : entries w₁.files s.ledgerPath = .ok es) (hnone : ∀ e ∈ es, e.networkIf ≠ name) :
    (s.reclaim name).outcome w = (.ok none, w₁.release g) := by
  have hfind : es.find? (·.networkIf = name) = none :=
    List.find?_eq_none.mpr fun e he => by simpa using hnone e he
  rw [outcome_reclaim name hlock hledger, hfind]

/-- The first entry of that name is returned, and all others are stored, unless that is refused. -/
theorem outcome_reclaim_of_first {first rest : List Asset} {a : Asset}
    (hlock : (Lock.acquire s.lockPath s.lockTimeoutSecs).outcome w = (.ok g, w₁))
    (hledger : entries w₁.files s.ledgerPath = .ok (first ++ a :: rest))
    (hfirst : ∀ e ∈ first, e.networkIf ≠ name) (hname : a.networkIf = name)
    (hallowed : w₁.files.Allows s.ledgerPath (image? (first ++ rest))) :
    ∃ w₂, (Ledger.store s.ledgerPath (first ++ rest)).outcome w₁ = (.ok (), w₂) ∧
      (s.reclaim name).outcome w = (.ok (some a), w₂.release g) := by
  have hthere : first ++ a :: rest = [] → first ++ rest = [] := by simp
  obtain ⟨w₂, hstore⟩ := exists_store_of_entries hledger hthere hallowed
  refine ⟨w₂, hstore, ?_⟩
  rw [outcome_reclaim name hlock hledger, find?_first hfirst hname, eraseP_first hfirst hname]
  simp only [hstore]

/-! ## Reclaiming what was acquired -/

/-- The session can get at the ledger of a path: its lock is apart from it and can be taken. -/
structure Reaches (s : Session) (path : String) (w : World) : Prop where
  ledger : s.ledgerPath = path
  apart : Apart w.files s.lockPath path
  usable : Lock.Usable s.lockPath s.lockTimeoutSecs w

/-- The file of the ledger is the same when the lock is taken. -/
theorem Reaches.read_locked {path : String} (h : s.Reaches path w)
    (hstable : (w.files.makeParents path).2.read path = w.files.read path)
    (hledger : entries w.files path = .ok es)
    (hlock : (Lock.acquire s.lockPath s.lockTimeoutSecs).outcome w = (.ok g, w₁)) :
    w₁.files.read path = w.files.read path := by
  have hspares := @Lock.leads_acquire s.lockPath path s.lockTimeoutSecs w h.apart
  rw [hlock] at hspares
  exact read_spared hstable (fun e he => eq_notFound_of_entries hledger he) hspares

/-- After an acquisition, whoever reclaims the bridge gets the asset and leaves the ledger as it was
before the acquisition. -/
theorem reclaim_of_acquired {path : String} {a : Asset} {s' r : Session} {w' : World}
    (hreaches : s.Reaches path w) (hstores : Stores w.files path es)
    (hallowed : w.files.Allows path (image? es))
    (hacquire : s.acquire.outcome w = (.ok (a, s'), w')) (hr : r.Reaches path w') :
    ∃ w₂, (r.reclaim a.networkIf).outcome w' = (.ok (some a), w₂) ∧
      w₂.files.read path = w.files.read path := by
  obtain ⟨rfl, hapart, _⟩ := hreaches
  have hacquired := acquire_at represents_image? hapart ⟨rfl, stores_iff.mp hstores⟩
  rw [hacquire] at hacquired
  obtain ⟨_, hat, _, hseparate⟩ := hacquired
  obtain ⟨g, w₁, hlock⟩ := hr.usable
  have hspares := @Lock.leads_acquire r.lockPath s.ledgerPath r.lockTimeoutSecs w' hr.apart
  have hrules := (holdsOfSteps_keepsRules r.lockPath).acquire r.lockTimeoutSecs w'
  rw [hlock] at hspares hrules
  have hledger := (hat.spared hspares).shows.entries represents_image?
  rw [← hr.ledger] at hledger
  have hnew : ∀ e ∈ es, e.networkIf ≠ a.networkIf := fun e he hname =>
    (hseparate e he).2 e.networkIf List.mem_cons_self (hname ▸ List.mem_cons_self)
  have hallowed' := ((sameRules_of_acquire hacquire).trans hrules).allows hallowed
  rw [← hr.ledger, ← List.append_nil es] at hallowed'
  obtain ⟨w₂, hstore, hreclaim⟩ := outcome_reclaim_of_first hlock hledger hnew rfl hallowed'
  rw [List.append_nil, hr.ledger] at hstore
  exact ⟨_, hreclaim, (read_of_store hstore).trans hstores.1.symm⟩

theorem reaches_after_acquire {path : String} {a : Asset} {s' : Session} {w' : World}
    (hreaches : s.Reaches path w) (hlists : Lists w.files path es)
    (hacquire : s.acquire.outcome w = (.ok (a, s'), w')) : s'.Reaches path w' := by
  obtain ⟨rfl, hapart, husable⟩ := hreaches
  have hacquired := acquire_inOrder (s := s) ⟨hapart, hlists, husable⟩
  rw [hacquire] at hacquired
  obtain ⟨rfl, hinOrder, _⟩ := hacquired
  exact ⟨rfl, hinOrder.apart, hinOrder.usable⟩

/-- If the lock of a session can be taken and what its ledger reads as does not depend on missing
directories, as with a plain path: a name that no entry has as its primary bridge is not found, and the
file of the ledger is left as it is; otherwise the first entry of that name is returned, and the ledger
loads to all others, in order, unless storing these is refused. In a ledger that holds what is written
for its entries and can be written so again, whatever is acquired can be reclaimed by its primary bridge,
by any session that reaches the ledger, and then the file is what it was before. -/
theorem reclaim_undoes_acquire (s : Session) {path : String} {es : List Asset} {w : World}
    (hreaches : s.Reaches path w) (hledger : entries w.files path = .ok es)
    (hstable : Plain path ∧ w.files.Rooted ∨
      (w.files.makeParents path).2.read path = w.files.read path) :
    (∀ name, (∀ e ∈ es, e.networkIf ≠ name) →
      ∃ w', (s.reclaim name).outcome w = (.ok none, w') ∧
        w'.files.read path = w.files.read path) ∧
    (∀ first a rest, es = first ++ a :: rest → (∀ e ∈ first, e.networkIf ≠ a.networkIf) →
      w.files.Allows path (image? (first ++ rest)) →
      ∃ w', (s.reclaim a.networkIf).outcome w = (.ok (some a), w') ∧
        entries w'.files path = .ok (first ++ rest)) ∧
    (w.files.read path = readSlot (image? es) → w.files.Allows path (image? es) →
      ∀ a s' w', s.acquire.outcome w = (.ok (a, s'), w') → s'.Reaches path w' ∧
        ∀ r : Session, r.Reaches path w' →
          ∃ w₂, (r.reclaim a.networkIf).outcome w' = (.ok (some a), w₂) ∧
            w₂.files.read path = w.files.read path) := by
  have hmade : (w.files.makeParents path).2.read path = w.files.read path := by
    rcases hstable with ⟨hplain, hrooted⟩ | hmade
    · exact hplain.read_makeParents hrooted fun e he => eq_notFound_of_entries hledger he
    · exact hmade
  obtain ⟨g, w₁, hlock⟩ := hreaches.usable
  have hread := hreaches.read_locked hmade hledger hlock
  have hrules := (holdsOfSteps_keepsRules s.lockPath).acquire s.lockTimeoutSecs w
  rw [hlock] at hrules
  have hloads : entries w₁.files s.ledgerPath = .ok es := by
    rw [hreaches.ledger, entries_of_read_eq hread, hledger]
  refine ⟨fun name hnone => ?_, fun first a rest hes hfirst hallowed => ?_,
    fun hwritten hallowed a s' w' hacquire => ?_⟩
  · exact ⟨_, outcome_reclaim_of_none hlock hloads hnone, hread⟩
  · rw [hes] at hloads
    have hallowed' := SameRules.allows hrules hallowed
    rw [← hreaches.ledger] at hallowed'
    obtain ⟨w₂, hstore, hreclaim⟩ := outcome_reclaim_of_first hlock hloads hfirst rfl hallowed'
    rw [hreaches.ledger] at hstore
    have hleft : entries w₂.files path = .ok (first ++ rest) := entries_of_store hstore
    exact ⟨_, hreclaim, hleft⟩
  · have hstores : Stores w.files path es := ⟨hwritten, .inr (hmade.trans hwritten)⟩
    have hlists : Lists w.files path es := ⟨hledger, .inr ((entries_of_read_eq hmade).trans hledger)⟩
    exact ⟨reaches_after_acquire hreaches hlists hacquire, fun r hr =>
      reclaim_of_acquired hreaches hstores hallowed hacquire hr⟩

/-- An entry with the same primary bridge as another one, and nothing else in common. -/
def namesake (e : Asset) : Asset :=
  { e with secondaryNetworkIf := e.networkIf, allocatedAt := none, ownerPid := none }

/-- With two entries of one name, the first one goes. An asset that was acquired goes, and the ledger has
its two entries again. Without a file, there is none again. -/
theorem reclaim_undoes_acquire_namesake :
    (∃ w₀ w₁ w₂, (Ledger.store "ledger" [intricate, namesake intricate]).outcome
          (quiet (.empty [])) = (.ok (), w₀) ∧
        ((plain "ledger" "l" 1).reclaim intricate.networkIf).outcome w₀ =
          (.ok (some intricate), w₁) ∧
        entries w₁.files "ledger" = .ok [namesake intricate] ∧
        ((plain "ledger" "l" 1).reclaim intricate.secondaryNetworkIf).outcome w₀ = (.ok none, w₂) ∧
        w₂.files.read "ledger" = w₀.files.read "ledger") ∧
      (∃ a s w₁ w₂, lodging.acquire.outcome (keeping [guest, lodger]) = (.ok (a, s), w₁) ∧
        (s.reclaim a.networkIf).outcome w₁ = (.ok (some a), w₂) ∧
        w₂.files.read "ledger" = .ok (encode [guest, lodger])) ∧
      ∃ a s w₁ w₂, (plain "ledger" "l" 1).acquire.outcome (quiet (.empty [])) = (.ok (a, s), w₁) ∧
        (s.reclaim a.networkIf).outcome w₁ = (.ok (some a), w₂) ∧
        w₂.files.read "ledger" = .error .notFound := by
  have hplain : Plain "ledger" := ⟨by decide, by decide⟩
  refine ⟨?_, ?_, ?_⟩
  · obtain ⟨w₀, hstore, hdir, hrules, husable⟩ :
        ∃ w₀, (Ledger.store "ledger" [intricate, namesake intricate]).outcome (quiet (.empty [])) =
            (.ok (), w₀) ∧ w₀.files.workDir = [] ∧ w₀.files.refusal? = (fun _ _ => none) ∧
          Lock.Usable "l" 0 w₀ :=
      ⟨_, rfl, rfl, rfl, _, _, rfl⟩
    have hread := read_of_store hstore
    obtain ⟨hnone, hfirst, _⟩ := reclaim_undoes_acquire (plain "ledger" "l" 1)
      ⟨rfl, apart_plain hdir, husable⟩ (entries_of_store hstore)
      (.inr ((read_makeParents hread).2.trans hread.symm))
    obtain ⟨w₁, hreclaim, hleft⟩ := hfirst [] intricate [namesake intricate] rfl
      (fun e he => absurd he List.not_mem_nil) (by rw [Allows, hrules])
    obtain ⟨w₂, hmissing, hsame⟩ := hnone intricate.secondaryNetworkIf (by decide)
    exact ⟨w₀, w₁, w₂, hstore, hreclaim, hleft, hmissing, hsame⟩
  · obtain ⟨a, w₁, _, _, hacquire, _⟩ := lodging_acquires
    have hread : (keeping [guest, lodger]).files.read "ledger" = .ok (encode [guest, lodger]) := rfl
    obtain ⟨_, _, hacquired⟩ := reclaim_undoes_acquire lodging
      (w := keeping [guest, lodger]) ⟨rfl, apart_plain rfl, _, _, rfl⟩
      ((entries_of_content hread).trans (decode_encode _))
      (.inr ((read_makeParents hread).2.trans hread.symm))
    obtain ⟨hreaches, hreclaimed⟩ := hacquired hread rfl a _ w₁ hacquire
    obtain ⟨w₂, hreclaim, hrestored⟩ := hreclaimed _ hreaches
    exact ⟨a, _, w₁, w₂, hacquire, hreclaim, hrestored.trans hread⟩
  · obtain ⟨a, s, w₁, hacquire⟩ : ∃ a s w₁,
        (plain "ledger" "l" 1).acquire.outcome (quiet (.empty [])) = (.ok (a, s), w₁) :=
      ⟨_, _, _, rfl⟩
    obtain ⟨_, _, hacquired⟩ := reclaim_undoes_acquire (plain "ledger" "l" 1)
      (w := quiet (.empty [])) ⟨rfl, apart_plain rfl, _, _, rfl⟩ rfl (.inl ⟨hplain, rooted_empty []⟩)
    obtain ⟨hreaches, hreclaimed⟩ := hacquired rfl rfl a s w₁ hacquire
    obtain ⟨w₂, hreclaim, hread⟩ := hreclaimed s hreaches
    exact ⟨a, s, w₁, w₂, hacquire, hreclaim, hread⟩

/-- A session whose ledger loads cannot reclaim from it where a directory is in the place of the
lock, nor where the ledger is beyond a missing directory and does not load once that is made, nor where
it must not be written. -/
theorem reclaim_fails_of_loading :
    (∃ w : World, Apart w.files "l" "ledger" ∧ entries w.files "ledger" = .ok [] ∧
        (((plain "ledger" "l" 1).reclaim "b").outcome w).1 = .error (.io .isDirectory)) ∧
      (∃ w : World, Apart w.files "x/lock" "x/../h" ∧ entries w.files "x/../h" = .ok [] ∧
        (((plain "x/../h" "x/lock" 1).reclaim "b").outcome w).1 = .error (.io .invalidUtf8)) ∧
      ∃ w : World, Apart w.files "l" "ledger" ∧ entries w.files "ledger" = .ok [guest, lodger] ∧
        ((lodging.reclaim "guest").outcome w).1 = .error (.io .readOnly) := by
  obtain ⟨hentries, _, _, hrefused⟩ := Pool.frozen_fails
  exact ⟨⟨quiet ((FileSystem.empty []).set ["l"] (some .directory)),
      apart_plain rfl, rfl, rfl⟩,
    ⟨(Pool.hidden ⟨#[0xFF]⟩).world, ⟨by decide, by decide, by decide⟩, rfl, rfl⟩,
    Pool.frozen.world, apart_plain rfl, hentries, hrefused⟩

end Session
end NetPool
