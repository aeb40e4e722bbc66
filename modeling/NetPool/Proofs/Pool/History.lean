import NetPool.Proofs.Pool.Run

/-! # The ledger as a history

Nothing in a ledger says which session an entry belongs to. Still, what the events leave of the
entries can be told from the events alone, by keeping for each entry the session that acquired it:
as long as the stamps tell the acquisitions apart, a session gives back its own entries and no
others. -/

namespace NetPool

/-- When and by which process an asset was acquired. -/
def Asset.stamps (a : Asset) : Option Instant × Option UInt32 := (a.allocatedAt, a.ownerPid)

namespace Pool

open Ledger (Lists)

variable {ι : Type} [DecidableEq ι]

/-! ## Entries with their owners -/

/-- An entry with the session that acquired it, if any did. -/
abbrev Owned (ι : Type) : Type := Option ι × Asset

/-- Entries that were there before any session acted. -/
def unowned (es : List Asset) : List (Owned ι) := es.map (none, ·)

/-- The owned entries after an event. -/
def Event.record (l : List (Owned ι)) : Event ι → List (Owned ι)
  | .acquired i a => l ++ [(some i, a)]
  | .gaveBack i => l.filter fun e => e.1 ≠ some i
  | .reclaimed networkIf => l.eraseP fun e => e.2.networkIf = networkIf

/-- The owned entries after events in order. -/
def replay (events : List (Event ι)) (l : List (Owned ι)) : List (Owned ι) :=
  events.foldl Event.record l

/-- What is pending of a session that is still among the entries is what it owns of them, and all
of it has been acquired. -/
structure Owns (pending : ι → List Asset) (l : List (Owned ι)) (past : List Asset) : Prop where
  owner : ∀ e ∈ l, ∀ i, e.2 ∈ pending i ↔ e.1 = some i
  acquired : ∀ i, ∀ a ∈ pending i, a ∈ past

variable {pending pending' : ι → List Asset} {l : List (Owned ι)} {past es' : List Asset}

omit [DecidableEq ι] in
theorem map_unowned (es : List Asset) : (unowned es : List (Owned ι)).map Prod.snd = es := by
  rw [unowned, List.map_map]
  exact List.map_id es

omit [DecidableEq ι] in
theorem owns_unowned (h : ∀ i, pending i = []) (es : List Asset) : Owns pending (unowned es) [] := by
  refine ⟨fun e he i => ?_, fun i a ha => ?_⟩
  · obtain ⟨a, _, rfl⟩ := List.mem_map.mp he
    simp [h i]
  · rwa [h i] at ha

/-- What a session leaves of the entries is what it does not own. -/
theorem Owns.others (h : Owns pending l past) (i : ι) :
    (l.map Prod.snd).filter (fun e => !(pending i).contains e) =
      (l.filter fun e => e.1 ≠ some i).map Prod.snd := by
  rw [List.filter_map]
  refine congrArg _ (List.filter_congr fun e he => ?_)
  have howner := h.owner e he i
  by_cases hmem : e.2 ∈ pending i
  · simp [hmem, howner.mp hmem]
  · have hother : e.1 ≠ some i := fun hi => hmem (howner.mpr hi)
    simp [hmem, hother]

/-- A session gives back as many entries as it owns. -/
theorem Owns.count (h : Owns pending l past) (i : ι) :
    (l.map Prod.snd).length - ((l.map Prod.snd).filter fun e => !(pending i).contains e).length =
      l.countP fun e => e.1 = some i := by
  have hlength := List.length_eq_countP_add_countP (fun e : Owned ι => e.1 = some i) (l := l)
  rw [h.others, List.length_map, List.length_map, ← List.countP_eq_length_filter]
  simp only [ne_eq, decide_not, Bool.decide_eq_true] at hlength ⊢
  omega

/-! ## Ownership over a run -/

omit [DecidableEq ι] in
theorem Owns.append {i : ι} {a : Asset} (h : Owns pending l past)
    (hfresh : a.stamps ∉ past.map Asset.stamps) (hother : ∀ e ∈ l, e.2 ≠ a)
    (hpending : ∀ b j, b ∈ pending' j ↔ b ∈ pending j ∨ b = a ∧ j = i) :
    Owns pending' (l ++ [(some i, a)]) (past ++ [a]) := by
  have hnew : ∀ j, a ∉ pending j :=
    fun j ha => hfresh (List.mem_map_of_mem (h.acquired j a ha))
  refine ⟨fun e he j => ?_, fun j b hb => ?_⟩
  · rw [hpending]
    rcases List.mem_append.mp he with he | he
    · simpa [hother e he] using h.owner e he j
    · rw [List.mem_singleton.mp he]
      simp [hnew j, eq_comm]
  · rcases (hpending b j).mp hb with hb | ⟨rfl, _⟩
    · exact List.mem_append_left _ (h.acquired j b hb)
    · exact List.mem_append_right _ (List.mem_singleton_self b)

theorem Owns.gaveBack {i : ι} (h : Owns pending l past) (hown : pending' i = [])
    (hothers : ∀ j, j ≠ i → pending' j = pending j) :
    Owns pending' (l.filter fun e => e.1 ≠ some i) past := by
  refine ⟨fun e he j => ?_, fun j b hb => ?_⟩
  · obtain ⟨hmem, hne⟩ := List.mem_filter.mp he
    by_cases hj : j = i
    · rw [hj, hown]
      simpa using hne
    · rw [hothers j hj]
      exact h.owner e hmem j
  · by_cases hj : j = i
    · rw [hj, hown] at hb
      cases hb
    · rw [hothers j hj] at hb
      exact h.acquired j b hb

omit [DecidableEq ι] in
theorem Owns.reclaimed (h : Owns pending l past) (remove : Owned ι → Bool) :
    Owns pending (l.eraseP remove) past :=
  ⟨fun e he => h.owner e (List.mem_of_mem_eraseP he), h.acquired⟩

theorem Change.owns {event : Event ι} (h : Change pending (l.map Prod.snd) event pending' es')
    (howns : Owns pending l past)
    (hfresh : ∀ a, event.asset? = some a → a.stamps ∉ past.map Asset.stamps) :
    es' = (event.record l).map Prod.snd ∧
      Owns pending' (event.record l) (past ++ event.asset?.toList) := by
  cases h with
  | @acquired i a _ _ hseparate hown hothers =>
      refine ⟨by rw [Event.record, List.map_append, List.map_singleton],
        howns.append (hfresh a rfl) (fun e he => ?_) fun b j => ?_⟩
      · exact (hseparate e.2 (List.mem_map_of_mem he)).ne
      · by_cases hj : j = i
        · simp [hj, hown]
        · simp [hj, hothers j hj]
  | @gaveBack i _ hown hothers =>
      rw [Event.asset?, Option.toList_none, List.append_nil]
      exact ⟨howns.others i, howns.gaveBack hown hothers⟩
  | @reclaimed networkIf a _ _ hsame =>
      obtain rfl : pending' = pending := funext hsame
      rw [Event.asset?, Option.toList_none, List.append_nil]
      exact ⟨List.eraseP_map, howns.reclaimed _⟩

theorem Changes.owns {events : List (Event ι)}
    (h : Changes pending (l.map Prod.snd) events pending' es') (howns : Owns pending l past)
    (hstamps : ((past ++ acquisitions events).map Asset.stamps).Nodup) :
    es' = (replay events l).map Prod.snd ∧
      Owns pending' (replay events l) (past ++ acquisitions events) := by
  generalize hes : l.map Prod.snd = es at h
  induction h generalizing l past with
  | nil hsame =>
      obtain rfl := funext hsame
      refine ⟨hes.symm, ?_⟩
      rw [acquisitions, List.filterMap_nil, List.append_nil]
      exact howns
  | @cons pending _ _ es _ _ event events hfirst _ ih =>
      subst hes
      have hsplit : past ++ acquisitions (event :: events) =
          (past ++ event.asset?.toList) ++ acquisitions events := by
        rw [List.append_assoc, acquisitions, List.filterMap_cons]
        cases event.asset? <;> rfl
      rw [hsplit] at hstamps ⊢
      obtain ⟨rfl, howns'⟩ := hfirst.owns howns fun a ha hmem => by
        rw [ha, List.append_assoc, List.map_append] at hstamps
        exact (List.nodup_append.mp hstamps).2.2 _ hmem _ List.mem_cons_self rfl
      exact ih howns' hstamps rfl

theorem history_append (p : Pool ι) (ops more : List (Op ι)) :
    p.history (ops ++ more) = p.history ops ++ (p.run ops).history more := by
  induction ops generalizing p with
  | nil => rfl
  | cons op ops ih =>
      rw [List.cons_append, history, ih, ← List.append_assoc]
      rfl

theorem stamps_take {p : Pool ι} {ops : List (Op ι)}
    (h : ((acquisitions (p.history ops)).map Asset.stamps).Nodup) (k : Nat) :
    ((acquisitions (p.history (ops.take k))).map Asset.stamps).Nodup := by
  rw [← List.take_append_drop k ops, history_append, acquisitions, List.filterMap_append,
    List.map_append] at h
  exact (List.nodup_append.mp h).1

/-- After every step of a run, the ledger loads to what the events so far leave of the entries that
it had at the start. A session that then gives back what it has removes exactly what it owns of
them, and counts that. -/
theorem ledger_eq_replay_of_run (p : Pool ι) {path : String} {es : List Asset} (ops : List (Op ι))
    (hledger : ∀ i, (p.sessions i).ledgerPath = path)
    (hapart : ∀ i, FileSystem.Apart p.world.files (p.sessions i).lockPath path)
    (hkeeps : ∀ op ∈ ops, op.Keeps fun files es => Lists files path es)
    (hlists : Lists p.world.files path es) (hidle : ∀ i, p.pending i = [])
    (hstamps : ((acquisitions (p.history ops)).map Asset.stamps).Nodup) (k : Nat) :
    let q := p.run (ops.take k)
    let owned := replay (p.history (ops.take k)) (unowned es)
    Lists q.world.files path (owned.map Prod.snd) ∧
      ∀ i n s w, (q.sessions i).releaseAll.outcome q.world = (.ok (n, s), w) →
        n = owned.countP (fun e => e.1 = some i) ∧
          Lists w.files path ((owned.filter fun e => e.1 ≠ some i).map Prod.snd) := by
  intro q owned
  obtain ⟨es', hchanges, hstanding⟩ := run_follows_lists hledger hapart hlists (ops.take k)
    fun op hop => hkeeps op (List.mem_of_mem_take hop)
  rw [← map_unowned (ι := ι) es] at hchanges
  obtain ⟨rfl, howns⟩ := hchanges.owns (owns_unowned hidle es) (stamps_take hstamps k)
  refine ⟨Ledger.lists_iff.mpr hstanding.shown.shows, fun i n s w hrelease => ?_⟩
  obtain ⟨happart, hshown⟩ := hstanding.session i
  have hback := Session.releaseAll_at Ledger.represents_decodeSlot happart hshown
  rw [hrelease, hstanding.ledger i] at hback
  obtain ⟨_, hat, hn⟩ := hback
  refine ⟨hn.trans (howns.count i), Ledger.lists_iff.mpr ?_⟩
  rw [← howns.others i]
  exact hat.shows

/-- After two sessions have acquired and an older entry was removed, one of them gives back its own. -/
theorem ledger_eq_replay_of_pair : ∃ a b n s w,
    replay (pair.history (subletting.take 3)) (unowned [Session.guest, Session.lodger]) =
        [(none, Session.lodger), (some true, a), (some false, b)] ∧
      Lists (pair.run (subletting.take 3)).world.files "ledger" [Session.lodger, a, b] ∧
      ((pair.run (subletting.take 3)).sessions true).releaseAll.outcome
          (pair.run (subletting.take 3)).world = (.ok (n, s), w) ∧
        n = 1 ∧ Lists w.files "ledger" [Session.lodger, b] := by
  obtain ⟨a, b, hhistory, hstamps, _, n, w, hrelease⟩ := pair_sublets
  have hdistinct : ((acquisitions (pair.history subletting)).map Asset.stamps).Nodup := by
    rw [hhistory, show acquisitions _ = [a, b] from rfl]
    simpa [Asset.stamps] using fun hstamp _ => hstamps hstamp
  obtain ⟨hlists, hback⟩ := ledger_eq_replay_of_run pair subletting (fun _ => rfl) pair_apart
    subletting_keeps pair_lists (fun _ => rfl) hdistinct 3
  rw [show subletting.take 3 = subletting from rfl] at hlists hback ⊢
  have hreplay : replay (pair.history subletting) (unowned [Session.guest, Session.lodger]) =
      [(none, Session.lodger), (some true, a), (some false, b)] := by
    rw [hhistory]
    rfl
  rw [hreplay] at hlists hback
  obtain ⟨hcount, hrest⟩ := hback true n _ w hrelease
  exact ⟨a, b, n, _, w, hreplay, hlists, hrelease, hcount, hrest⟩

/-- A ledger that loads as one without entries need not load any more once the directory of the
lock is made, though no event took place. -/
theorem hidden_is_not_replayed :
    Ledger.entries (hidden ⟨#[0xff]⟩).world.files "x/../h" = .ok [] ∧
      FileSystem.Apart (hidden ⟨#[0xff]⟩).world.files "x/lock" "x/../h" ∧
      (hidden ⟨#[0xff]⟩).pending () = [] ∧
      (hidden ⟨#[0xff]⟩).history [.reclaim () "a"] = [] ∧
      Ledger.entries ((hidden ⟨#[0xff]⟩).run [.reclaim () "a"]).world.files "x/../h" ≠ .ok [] :=
  ⟨rfl, ⟨by decide, by decide, by decide⟩, rfl, rfl, fun h => nomatch h⟩

end Pool

end NetPool
