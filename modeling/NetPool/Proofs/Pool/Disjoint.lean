import NetPool.Proofs.Pool.Run

/-! # Disjoint ledgers

However the sessions of a pool act, the ledger that they share stays disjoint. -/

namespace NetPool.Pool

open Ledger (Lists)

variable {ι : Type} [DecidableEq ι]

omit [DecidableEq ι] in
theorem Change.disjoint {pending pending' : ι → List Asset} {es es' : List Asset} {event : Event ι}
    (h : Change pending es event pending' es') (hdisjoint : Ledger.Disjoint es) :
    Ledger.Disjoint es' := by
  cases h with
  | acquired hcoherent hseparate _ _ => exact hdisjoint.append hcoherent hseparate
  | gaveBack _ _ => exact hdisjoint.sublist List.filter_sublist
  | reclaimed _ _ => exact hdisjoint.sublist List.eraseP_sublist

omit [DecidableEq ι] in
theorem Changes.disjoint {pending pending' : ι → List Asset} {es es' : List Asset}
    {events : List (Event ι)} (h : Changes pending es events pending' es')
    (hdisjoint : Ledger.Disjoint es) : Ledger.Disjoint es' := by
  induction h with
  | nil _ => exact hdisjoint
  | cons hfirst _ ih => exact ih (hfirst.disjoint hdisjoint)

/-- After every step of a run, the shared ledger loads to disjoint entries, if it did so at the
start, also once the missing directories above it are made. -/
theorem ledger_disjoint_of_run (p : Pool ι) {path : String} {es : List Asset} (ops : List (Op ι))
    (hledger : ∀ i, (p.sessions i).ledgerPath = path)
    (hapart : ∀ i, FileSystem.Apart p.world.files (p.sessions i).lockPath path)
    (hkeeps : ∀ op ∈ ops, op.Keeps fun files es => Lists files path es)
    (hlists : Lists p.world.files path es) (hdisjoint : Ledger.Disjoint es) (k : Nat) :
    ∃ es', Lists (p.run (ops.take k)).world.files path es' ∧ Ledger.Disjoint es' := by
  obtain ⟨es', hchanges, hstanding⟩ := run_follows_lists hledger hapart hlists (ops.take k)
    fun op hop => hkeeps op (List.mem_of_mem_take hop)
  exact ⟨es', Ledger.lists_iff.mpr hstanding.shown.shows, hchanges.disjoint hdisjoint⟩

/-- Two acquisitions and a removal leave three of four entries. -/
theorem ledger_disjoint_of_pair : ∃ a b,
    Lists (pair.run (subletting.take 3)).world.files "ledger" [Session.lodger, a, b] ∧
      Ledger.Disjoint [Session.lodger, a, b] := by
  have hdisjoint : Ledger.Disjoint [Session.guest, Session.lodger] := by decide
  obtain ⟨es, hlists, hes⟩ := ledger_disjoint_of_run pair subletting (fun _ => rfl) pair_apart
    subletting_keeps pair_lists hdisjoint 3
  obtain ⟨a, b, _, _, hloads, _⟩ := pair_sublets
  rw [show subletting.take 3 = subletting from rfl] at hlists ⊢
  obtain rfl := Except.ok.inj (hloads.symm.trans hlists.1)
  exact ⟨a, b, hlists, hes⟩

/-- A ledger that loads as one without entries need not load at all once the directory of the lock
is made. -/
theorem hidden_does_not_load :
    Ledger.entries (hidden ⟨#[0xff]⟩).world.files "x/../h" = .ok [] ∧
      FileSystem.Apart (hidden ⟨#[0xff]⟩).world.files "x/lock" "x/../h" ∧
      ∀ es, Ledger.entries ((hidden ⟨#[0xff]⟩).run [.snapshot ()]).world.files "x/../h" ≠ .ok es :=
  ⟨rfl, ⟨by decide, by decide, by decide⟩, fun _ h => nomatch h⟩

end NetPool.Pool
