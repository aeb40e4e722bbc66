import NetPool.Proofs.Occupancy.Order
import NetPool.Proofs.Session.Acquire

/-! # Surveys of known networks

What a survey finds depends only on which leases there are, and not on the order of the networks. A
hypervisor whose networks are known beforehand reports the leases of each. -/

namespace NetPool

namespace Occupancy

/-- Leases may be recorded in any order and any number of times. -/
theorem ofLeases_congr {ls ls' : List Lease} (h : ∀ l, l ∈ ls ↔ l ∈ ls') :
    ofLeases ls = ofLeases ls' :=
  (holds_ofLeases ls).eq_of_alike (holds_ofLeases ls') (Uses.alike_ofLeases h)

end Occupancy

namespace Hypervisor

/-- The leases of all networks that have not vanished. -/
def leasesIn (ns : List (String × Option (List Lease))) : List Lease := ns.flatMap fun n => n.2.getD []

/-- A survey finds the leases of the networks that tell them, if the networks can be listed. -/
theorem survey_eq {h : Hypervisor} {m : Machine} {ns : List (String × Option (List Lease))}
    (hnetworks : (h.networks m).result = .ok (ns.map Prod.fst))
    (hleases : ∀ n ∈ ns, (h.leases m n.1).result.toOption = n.2) :
    (h.survey m).result = .ok (Occupancy.ofLeases (leasesIn ns)) := by
  have hsame : h.leasesOf m (ns.map Prod.fst) = leasesIn ns := by
    rw [leasesOf, List.flatMap_map, leasesIn, List.flatMap_def, List.flatMap_def]
    refine congrArg List.flatten (List.map_congr_left fun n hn => ?_)
    rw [← hleases n hn]
    cases (h.leases m n.1).result with
    | ok ls => rfl
    | error e => rfl
  rw [survey_result, told, hnetworks, ← hsame]
  rfl

/-! ## Networks in the order of their names -/

namespace KnownNetworks

variable {name : String} {leases : Option (List Lease)} {ns : KnownNetworks}

/-- The networks have different names, in increasing order. -/
def Sorted (ns : KnownNetworks) : Prop := ns.Pairwise fun n n' => n.1 < n'.1

theorem mem_insert {p : String × Option (List Lease)} (hnew : ∀ n ∈ ns, n.1 ≠ name) :
    p ∈ ns.insert name leases ↔ p = (name, leases) ∨ p ∈ ns := by
  induction ns with
  | nil => simp [KnownNetworks.insert]
  | cons n ns ih =>
      have hrest := ih fun n' hn' => hnew n' (List.mem_cons_of_mem n hn')
      rw [KnownNetworks.insert]
      split
      · exact List.mem_cons
      · rw [if_neg (hnew n List.mem_cons_self).symm, List.mem_cons, hrest, List.mem_cons,
          or_left_comm]

theorem sorted_insert (hsorted : ns.Sorted) (hnew : ∀ n ∈ ns, n.1 ≠ name) :
    (ns.insert name leases).Sorted := by
  induction ns with
  | nil => exact List.pairwise_singleton _ _
  | cons n ns ih =>
      obtain ⟨hn, hns⟩ := List.pairwise_cons.mp hsorted
      have hrest := fun n' hn' => hnew n' (List.mem_cons_of_mem n hn')
      rw [KnownNetworks.insert]
      split
      · rename_i hlt
        refine List.pairwise_cons.mpr ⟨fun n' hn' => ?_, hsorted⟩
        rcases List.mem_cons.mp hn' with rfl | hn'
        · exact hlt
        · exact Std.lt_trans hlt (hn n' hn')
      · rename_i hnot
        rw [if_neg (hnew n List.mem_cons_self).symm]
        refine List.pairwise_cons.mpr ⟨fun n' hn' => ?_, ih hns hrest⟩
        rcases (mem_insert hrest).mp hn' with rfl | hn'
        · exact Std.lt_of_le_of_ne (Std.not_lt.mp hnot) (hnew n List.mem_cons_self)
        · exact hn n' hn'

theorem foldl_insert {known : KnownNetworks} (hsorted : known.Sorted)
    {ns : List (String × Option (List Lease))} (hdistinct : (ns.map Prod.fst).Nodup)
    (hnew : ∀ n ∈ ns, ∀ k ∈ known, k.1 ≠ n.1) :
    (ns.foldl (fun known n => known.insert n.1 n.2) known).Sorted ∧
      ∀ p, p ∈ ns.foldl (fun known n => known.insert n.1 n.2) known ↔ p ∈ known ∨ p ∈ ns := by
  induction ns generalizing known with
  | nil => exact ⟨hsorted, fun p => by simp⟩
  | cons n ns ih =>
      obtain ⟨hn, hns⟩ := List.nodup_cons.mp hdistinct
      have hfirst := hnew n List.mem_cons_self
      have hrest : ∀ n' ∈ ns, ∀ k ∈ known.insert n.1 n.2, k.1 ≠ n'.1 := by
        intro n' hn' k hk
        rcases (mem_insert hfirst).mp hk with rfl | hk
        · exact fun hsame => hn (hsame ▸ List.mem_map_of_mem hn')
        · exact hnew n' (List.mem_cons_of_mem n hn') k hk
      obtain ⟨hsorted', hmem⟩ := ih (sorted_insert hsorted hfirst) hns hrest
      refine ⟨hsorted', fun p => ?_⟩
      rw [List.foldl_cons, hmem, mem_insert hfirst, List.mem_cons, or_assoc, or_left_comm]

theorem sorted_ofList {ns : List (String × Option (List Lease))}
    (hdistinct : (ns.map Prod.fst).Nodup) : (ofList ns).Sorted :=
  (foldl_insert .nil hdistinct fun _ _ _ hk => absurd hk List.not_mem_nil).1

/-- The networks of a list with different names are all there. -/
theorem mem_ofList {ns : List (String × Option (List Lease))}
    (hdistinct : (ns.map Prod.fst).Nodup) (p : String × Option (List Lease)) :
    p ∈ ofList ns ↔ p ∈ ns := by
  have hmem := (foldl_insert .nil hdistinct fun _ _ _ hk => absurd hk List.not_mem_nil).2 p
  exact hmem.trans (or_iff_right List.not_mem_nil)

theorem lookup_of_mem {p : String × Option (List Lease)} (hsorted : ns.Sorted) (hp : p ∈ ns) :
    ns.lookup p.1 = some p.2 := by
  induction ns with
  | nil => exact absurd hp List.not_mem_nil
  | cons n ns ih =>
      obtain ⟨hn, hns⟩ := List.pairwise_cons.mp hsorted
      obtain ⟨first, known⟩ := n
      rcases List.mem_cons.mp hp with rfl | hp
      · exact List.lookup_cons_self
      · have hne : p.1 ≠ first := (Std.ne_of_lt (hn p hp)).symm
        rw [List.lookup_cons, beq_eq_false_iff_ne.mpr hne]
        exact ih hns hp

end KnownNetworks

theorem leases_known {ns : KnownNetworks} (hsorted : ns.Sorted)
    {n : String × Option (List Lease)} (hn : n ∈ ns) (m : Machine) :
    ((known ns).leases m n.1).result.toOption = n.2 := by
  have hlookup := KnownNetworks.lookup_of_mem hsorted hn
  rw [known]
  simp only [hlookup, Answer.ofResult]
  cases n.2 with
  | some leases => rfl
  | none => rfl

/-- A survey of known networks finds the leases of those that do not vanish. -/
theorem survey_known {ns : List (String × Option (List Lease))}
    (hdistinct : (ns.map Prod.fst).Nodup) (m : Machine) :
    ((known (.ofList ns)).survey m).result = .ok (Occupancy.ofLeases (leasesIn ns)) := by
  have hsorted := KnownNetworks.sorted_ofList hdistinct
  rw [survey_eq rfl fun n hn => leases_known hsorted hn m]
  refine congrArg Except.ok (Occupancy.ofLeases_congr fun l => ?_)
  simp only [leasesIn, List.mem_flatMap, KnownNetworks.mem_ofList hdistinct]

end Hypervisor

end NetPool
