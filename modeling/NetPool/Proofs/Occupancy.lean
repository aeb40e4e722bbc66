import NetPool.Hypervisor
import NetPool.Proofs.Net.Overlap

/-! # What is in use

What an occupancy refuses depends only on the ranges, addresses and names that were put into it. -/

namespace NetPool

/-- Ranges, addresses and names that must not be handed out, as plain lists. -/
structure Uses where
  ranges : List AnySubnet
  addresses : List AnyAddress
  names : List String

namespace Uses

/-- The uses of both. -/
def append (u v : Uses) : Uses :=
  ⟨u.ranges ++ v.ranges, u.addresses ++ v.addresses, u.names ++ v.names⟩

/-- No uses. -/
def nothing : Uses := ⟨[], [], []⟩

/-- Whole ranges. -/
def ofRanges (ss : List AnySubnet) : Uses := ⟨ss, [], []⟩

/-- Single addresses. -/
def ofAddresses (as : List AnyAddress) : Uses := ⟨[], as, []⟩

/-- Names of interfaces. -/
def ofNames (ns : List String) : Uses := ⟨[], [], ns⟩

/-- The subnets and bridges of assets. -/
def ofAssets (es : List Asset) : Uses := ⟨es.flatMap (·.subnets), [], es.flatMap (·.bridges)⟩

/-- The names and addresses of interfaces of the host. -/
def ofInterfaces (is : List HostInterface) : Uses := ⟨[], is.flatMap (·.addresses), is.map (·.name)⟩

/-- The bridges and addresses of leases. The networks that they lie in are not in use. -/
def ofLeases (ls : List Lease) : Uses := ⟨[], ls.map (·.address.address), ls.map (·.iface)⟩

theorem append_assoc (u v w : Uses) : (u.append v).append w = u.append (v.append w) := by
  simp [append]

@[simp] theorem append_nothing (u : Uses) : u.append nothing = u := by
  simp [append, nothing]

@[simp] theorem nothing_append (u : Uses) : nothing.append u = u := by
  simp [append, nothing]

/-- The range shares no address with those in use and holds none of the addresses in use. -/
def Admits (u : Uses) (s : AnySubnet) : Prop :=
  (∀ r ∈ u.ranges, ¬ r.Shares s) ∧ ∀ a ∈ u.addresses, ¬ s.covers a = true

end Uses

namespace Occupancy

/-- The occupancy holds these uses and nothing else. -/
structure Holds (o : Occupancy) (u : Uses) : Prop where
  networks : ∀ s, s ∈ o.networks ↔ ∃ r ∈ u.ranges, s = r.masked
  addresses : ∀ a, a ∈ o.addresses ↔ a ∈ u.addresses
  names : ∀ n, n ∈ o.names ↔ n ∈ u.names

variable {o p : Occupancy} {u v : Uses}

theorem holds_empty : Holds empty .nothing := by
  refine ⟨fun s => ?_, fun a => ?_, fun n => ?_⟩
  · simp [empty, Uses.nothing]
  · simp [empty, Uses.nothing]
  · simp [empty, Uses.nothing]

theorem Holds.addNetwork (h : Holds o u) (s : AnySubnet) :
    Holds (o.addNetwork s) (u.append (.ofRanges [s])) := by
  refine ⟨fun t => ?_, fun a => ?_, fun n => ?_⟩
  · simp [Occupancy.addNetwork, Uses.append, Uses.ofRanges, h.networks, or_and_right, exists_or,
      or_comm]
  · simp [Occupancy.addNetwork, Uses.append, Uses.ofRanges, h.addresses]
  · simp [Occupancy.addNetwork, Uses.append, Uses.ofRanges, h.names]

theorem Holds.addAddress (h : Holds o u) (a : AnyAddress) :
    Holds (o.addAddress a) (u.append (.ofAddresses [a])) := by
  refine ⟨fun t => ?_, fun b => ?_, fun n => ?_⟩
  · simp [Occupancy.addAddress, Uses.append, Uses.ofAddresses, h.networks]
  · simp [Occupancy.addAddress, Uses.append, Uses.ofAddresses, h.addresses, or_comm]
  · simp [Occupancy.addAddress, Uses.append, Uses.ofAddresses, h.names]

theorem Holds.addName (h : Holds o u) (n : String) :
    Holds (o.addName n) (u.append (.ofNames [n])) := by
  refine ⟨fun t => ?_, fun a => ?_, fun m => ?_⟩
  · simp [Occupancy.addName, Uses.append, Uses.ofNames, h.networks]
  · simp [Occupancy.addName, Uses.append, Uses.ofNames, h.addresses]
  · simp [Occupancy.addName, Uses.append, Uses.ofNames, h.names, or_comm]

theorem Holds.union (h : Holds o u) (h' : Holds p v) : Holds (o.union p) (u.append v) := by
  refine ⟨fun s => ?_, fun a => ?_, fun n => ?_⟩
  · simp [Occupancy.union, Uses.append, h.networks, h'.networks, or_and_right, exists_or]
  · simp [Occupancy.union, Uses.append, h.addresses, h'.addresses]
  · simp [Occupancy.union, Uses.append, h.names, h'.names]

/-! ## Folds -/

/-- What a list adds one after the other is what its items add. -/
theorem Holds.foldl {α : Type} {add : Occupancy → α → Occupancy} {of : List α → Uses}
    (hadd : ∀ {o u}, Holds o u → ∀ x, Holds (add o x) (u.append (of [x])))
    (hnil : of [] = .nothing) (hcons : ∀ x xs, of (x :: xs) = (of [x]).append (of xs))
    (h : Holds o u) (xs : List α) : Holds (xs.foldl add o) (u.append (of xs)) := by
  induction xs generalizing o u with
  | nil => rwa [hnil, Uses.append_nothing]
  | cons x xs ih =>
      rw [List.foldl_cons, hcons, ← Uses.append_assoc]
      exact ih (hadd h x)

theorem Holds.addNetworks (h : Holds o u) (ss : List AnySubnet) :
    Holds (ss.foldl Occupancy.addNetwork o) (u.append (.ofRanges ss)) :=
  h.foldl Holds.addNetwork rfl (fun _ _ => rfl) ss

theorem Holds.addAddresses (h : Holds o u) (as : List AnyAddress) :
    Holds (as.foldl Occupancy.addAddress o) (u.append (.ofAddresses as)) :=
  h.foldl Holds.addAddress rfl (fun _ _ => rfl) as

theorem Holds.addNames (h : Holds o u) (ns : List String) :
    Holds (ns.foldl Occupancy.addName o) (u.append (.ofNames ns)) :=
  h.foldl Holds.addName rfl (fun _ _ => rfl) ns

theorem Holds.addAsset (h : Holds o u) (e : Asset) :
    Holds (o.addAsset e) (u.append (.ofAssets [e])) := by
  have hfold := (h.addNetworks e.subnets).addNames e.bridges
  simpa [Occupancy.addAsset, Uses.append, Uses.ofAssets, Uses.ofRanges, Uses.ofNames] using hfold

theorem Holds.addInterface (h : Holds o u) (i : HostInterface) :
    Holds (o.addInterface i) (u.append (.ofInterfaces [i])) := by
  have hfold := (h.addAddresses i.addresses).addName i.name
  simpa [Occupancy.addInterface, Uses.append, Uses.ofInterfaces, Uses.ofAddresses, Uses.ofNames] using hfold

theorem Holds.addLease (h : Holds o u) (l : Lease) :
    Holds (o.addLease l) (u.append (.ofLeases [l])) := by
  have hfold := (h.addAddress l.address.address).addName l.iface
  simpa [Occupancy.addLease, Uses.append, Uses.ofLeases, Uses.ofAddresses, Uses.ofNames] using hfold

/-- All subnets and bridges of the assets are held. -/
theorem holds_ofAssets (es : List Asset) : Holds (ofAssets es) (.ofAssets es) := by
  have hfold := holds_empty.foldl Holds.addAsset rfl
    (fun e es => by simp [Uses.append, Uses.ofAssets]) es
  rwa [Uses.nothing_append] at hfold

/-- All names and addresses of the interfaces are held. -/
theorem holds_ofInterfaces (is : List HostInterface) :
    Holds (ofInterfaces is) (.ofInterfaces is) := by
  have hfold := holds_empty.foldl Holds.addInterface rfl
    (fun i is => by simp [Uses.append, Uses.ofInterfaces]) is
  rwa [Uses.nothing_append] at hfold

/-- All bridges and addresses of the leases are held besides what was held before. -/
theorem Holds.addLeases (h : Holds o u) (ls : List Lease) :
    Holds (ls.foldl Occupancy.addLease o) (u.append (.ofLeases ls)) :=
  h.foldl Holds.addLease rfl (fun _ _ => rfl) ls

/-- All bridges and addresses of the leases are held. -/
theorem holds_ofLeases (ls : List Lease) : Holds (ofLeases ls) (.ofLeases ls) := by
  have hfold := holds_empty.addLeases ls
  rwa [Uses.nothing_append] at hfold

/-! ## Questions -/

/-- A candidate conflicts exactly if it meets a range or an address among the uses. -/
theorem Holds.conflicts_iff_meets (h : Holds o u) {s : AnySubnet} :
    o.conflicts s = true ↔ (∃ r ∈ u.ranges, r.Shares s) ∨ ∃ a ∈ u.addresses, s.covers a = true := by
  rw [conflicts, Bool.or_eq_true, List.any_eq_true, List.any_eq_true]
  apply or_congr
  · constructor
    · rintro ⟨t, ht, hoverlaps⟩
      obtain ⟨r, hr, rfl⟩ := (h.networks t).mp ht
      exact ⟨r, hr, AnySubnet.masked_shares.mp (AnySubnet.overlaps_iff_shares.mp hoverlaps)⟩
    · rintro ⟨r, hr, hshares⟩
      refine ⟨r.masked, (h.networks _).mpr ⟨r, hr, rfl⟩, ?_⟩
      exact AnySubnet.overlaps_iff_shares.mpr (AnySubnet.masked_shares.mpr hshares)
  · constructor
    · rintro ⟨a, ha, hcovers⟩
      exact ⟨a, (h.addresses a).mp ha, hcovers⟩
    · rintro ⟨a, ha, hcovers⟩
      exact ⟨a, (h.addresses a).mpr ha, hcovers⟩

/-- The uses admit what does not conflict. -/
theorem Holds.admits_iff (h : Holds o u) {s : AnySubnet} : u.Admits s ↔ o.conflicts s = false := by
  rw [← Bool.not_eq_true, h.conflicts_iff_meets, not_or, Uses.Admits]
  simp

theorem Holds.hasName_iff (h : Holds o u) {n : String} : o.hasName n = true ↔ n ∈ u.names := by
  rw [hasName, SortedSet.contains_iff, h.names]

end Occupancy

end NetPool
