import NetPool.Proofs.Pool.Run

/-! # Acquiring and giving back

However often a session acquires, giving back restores the ledger to the byte. No stamps are needed
to tell the entries apart: what is acquired has a bridge of its own, so it differs from every entry
that was there. -/

namespace NetPool.Pool

open Ledger (Stores)

variable {ι : Type} [DecidableEq ι]

/-- Only this session acquires, nobody gives back or removes. -/
def Op.Acquires (i : ι) : Op ι → Prop
  | .acquire j => j = i
  | .snapshot _ | .rescan _ _ | .outside _ => True
  | .releaseAll _ | .reclaim _ _ | .borrow _ _ _ => False

theorem events_of_acquires {i : ι} {p : Pool ι} {op : Op ι} (h : op.Acquires i) :
    ∀ event ∈ p.events op, ∃ a, event = .acquired i a := by
  intro event hevent
  cases op with
  | acquire j =>
      obtain rfl : j = i := h
      rw [events] at hevent
      split at hevent
      · rename_i a _
        exact ⟨a, List.mem_singleton.mp hevent⟩
      · exact absurd hevent List.not_mem_nil
  | snapshot j => exact absurd hevent List.not_mem_nil
  | rescan j interfaces => exact absurd hevent List.not_mem_nil
  | outside f => exact absurd hevent List.not_mem_nil
  | releaseAll j => exact absurd h id
  | reclaim j networkIf => exact absurd h id
  | borrow j count body => exact absurd h id

theorem history_of_acquires {i : ι} {p : Pool ι} {ops : List (Op ι)}
    (h : ∀ op ∈ ops, op.Acquires i) : ∀ event ∈ p.history ops, ∃ a, event = .acquired i a := by
  induction ops generalizing p with
  | nil => exact fun event hevent => absurd hevent List.not_mem_nil
  | cons op ops ih =>
      intro event hevent
      rcases List.mem_append.mp hevent with hevent | hevent
      · exact events_of_acquires (h op List.mem_cons_self) event hevent
      · exact ih (fun op' hop' => h op' (List.mem_cons_of_mem op hop')) event hevent

omit [DecidableEq ι] in
/-- Acquiring appends to the entries and to what is pending, and differs from the entries. -/
theorem Changes.of_acquired {pending pending' : ι → List Asset} {es es' : List Asset}
    {events : List (Event ι)} {i : ι} (h : Changes pending es events pending' es')
    (hevents : ∀ event ∈ events, ∃ a, event = .acquired i a) :
    es' = es ++ acquisitions events ∧ pending' i = pending i ++ acquisitions events ∧
      ∀ e ∈ es, e ∉ acquisitions events := by
  induction h with
  | nil hsame => simp [acquisitions, hsame i]
  | @cons _ _ _ es _ _ event events hfirst hrest ih =>
      obtain ⟨a, rfl⟩ := hevents event List.mem_cons_self
      obtain ⟨rfl, hpending, hnew⟩ :=
        ih fun event hevent => hevents event (List.mem_cons_of_mem _ hevent)
      have hcons : acquisitions (.acquired i a :: events) = a :: acquisitions events := rfl
      rw [hcons]
      cases hfirst with
      | acquired hcoherent hseparate hown hothers =>
          refine ⟨List.append_assoc _ _ _, ?_, fun e he hmem => ?_⟩
          · rw [hpending, hown, List.append_assoc]
            rfl
          · rcases List.mem_cons.mp hmem with hmem | hmem
            · exact (hseparate e he).ne hmem
            · exact hnew e (List.mem_append_left _ he) hmem

theorem others_append {s : Session} {es : List Asset} (h : ∀ e ∈ es, e ∉ s.pending) :
    s.others (es ++ s.pending) = es := by
  have hnew : ∀ a ∈ s.pending, a ∉ es := fun a ha he => h a he ha
  have hothers := Session.others_owing (s := { s with pending := [] }) hnew
  rw [Session.others_of_pending_nil (s := { s with pending := [] }) rfl] at hothers
  exact hothers

/-- If the ledger holds what is written for its entries, it holds the same again after a session
without pending entries has acquired any number of times, failing any number of times, and has
given back. The session counts what it acquired and has nothing pending. -/
theorem ledger_restored_of_release (p : Pool ι) {path : String} {es : List Asset} {i : ι}
    (ops : List (Op ι)) (hledger : ∀ j, (p.sessions j).ledgerPath = path)
    (hapart : ∀ j, FileSystem.Apart p.world.files (p.sessions j).lockPath path)
    (hacquires : ∀ op ∈ ops, op.Acquires i)
    (hkeeps : ∀ op ∈ ops, op.Keeps fun files es => Stores files path es)
    (hstores : Stores p.world.files path es) (hidle : p.pending i = []) {n : Nat} {s : Session}
    {w : World}
    (hrelease : ((p.run ops).sessions i).releaseAll.outcome (p.run ops).world = (.ok (n, s), w)) :
    Stores w.files path es ∧ n = (acquisitions (p.history ops)).length ∧ s.pending = [] := by
  obtain ⟨es', hchanges, hstanding⟩ := run_follows Ledger.represents_image?
    ⟨hledger, hapart, rfl, Ledger.stores_iff.mp hstores⟩ ops
    fun op hop => (hkeeps op hop).congr fun _ _ => Ledger.stores_iff
  obtain ⟨rfl, hpending, hnew⟩ := hchanges.of_acquired (history_of_acquires hacquires)
  have hown : ((p.run ops).sessions i).pending = acquisitions (p.history ops) := by
    rw [hidle, List.nil_append] at hpending
    exact hpending
  have hothers : ((p.run ops).sessions i).others (es ++ acquisitions (p.history ops)) = es := by
    rw [← hown] at hnew ⊢
    exact others_append hnew
  obtain ⟨happart, hshown⟩ := hstanding.session i
  have hback := Session.releaseAll_at Ledger.represents_image? happart hshown
  rw [hrelease, hothers, hstanding.ledger i] at hback
  obtain ⟨rfl, hat, hn⟩ := hback
  refine ⟨Ledger.stores_iff.mpr hat.shows, ?_, rfl⟩
  rw [hn, List.length_append, Nat.add_sub_cancel_left]

/-- Two entries are acquired beside the two that there were, and given back. -/
theorem ledger_restored_of_pair : ∃ n s w,
    ((pair.run [.acquire true, .acquire true]).sessions true).releaseAll.outcome
        (pair.run [.acquire true, .acquire true]).world = (.ok (n, s), w) ∧
      Stores w.files "ledger" [Session.guest, Session.lodger] ∧ n = 2 ∧ s.pending = [] := by
  have hstores : Stores pair.world.files "ledger" [Session.guest, Session.lodger] :=
    ⟨pair_reads, .inr (FileSystem.read_makeParents pair_reads).2⟩
  obtain ⟨a, b, w₁, w₂, w₃, hfirst, hsecond, _, ⟨g, w, hunlocks⟩, _⟩ := tenants_acquire
  obtain ⟨hstep, hevents⟩ := step_of_acquired (p := pair) (i := true) (hfirst [])
  obtain ⟨hstep', hevents'⟩ :=
    step_of_acquired (p := pair.put true (tenant [a]) w₁) (i := true) (hsecond [a])
  have hrun : pair.run [.acquire true, .acquire true] = pair.put true (tenant [a, b]) w₂ := by
    simp only [run, List.foldl_cons, List.foldl_nil, hstep, List.nil_append, hstep',
      List.singleton_append, put_put]
  have hhistory : acquisitions (pair.history [.acquire true, .acquire true]) = [a, b] := by
    simp only [history, hevents, hstep, List.nil_append, hevents']
    rfl
  obtain ⟨n, w', hrelease⟩ := tenant_releases hunlocks (List.cons_ne_nil a [b])
  have hrelease' : ((pair.run [.acquire true, .acquire true]).sessions true).releaseAll.outcome
      (pair.run [.acquire true, .acquire true]).world = (.ok (n, tenant []), w') := by
    rw [hrun]
    exact hrelease
  obtain ⟨hstores', hn, hpending⟩ := ledger_restored_of_release pair [.acquire true, .acquire true]
    (fun _ => rfl) pair_apart (by simp [Op.Acquires]) (by simp [Op.Keeps]) hstores rfl hrelease'
  rw [hhistory] at hn
  exact ⟨n, _, w', hrelease', hstores', hn, hpending⟩

/-- The ledger may be beyond a missing directory, where an empty file cannot be read yet. It can
once the directory of the lock is made, even though nothing was acquired. -/
theorem hidden_is_not_restored :
    (hidden .empty).world.files.read "x/../h" = .error .notFound ∧
      FileSystem.Apart (hidden .empty).world.files "x/lock" "x/../h" ∧
      (hidden .empty).pending () = [] ∧ (hidden .empty).history [.acquire ()] = [] ∧
      ∃ s w, (((hidden .empty).run [.acquire ()]).sessions ()).releaseAll.outcome
          ((hidden .empty).run [.acquire ()]).world = (.ok (0, s), w) ∧
        w.files.read "x/../h" = .ok .empty :=
  ⟨rfl, ⟨by decide, by decide, by decide⟩, rfl, rfl, _, _, rfl, rfl⟩

end NetPool.Pool
