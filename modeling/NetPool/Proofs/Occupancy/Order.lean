import Mathlib.Data.List.Dedup
import NetPool.Proofs.Occupancy.History

/-! # Order and repetition

An occupancy is determined by what was put into it. In which order, how often, and by way of which
other occupancies makes no difference: it is listed in one order, each thing once. -/

namespace NetPool

/-! ## The order of listings -/

/-- Addresses are listed by family, the short ones first, and then by number. -/
def AnyAddress.Before (a b : AnyAddress) : Prop :=
  a.family = .v4 ∧ b.family = .v6 ∨ a.family = b.family ∧ a.address.value < b.address.value

theorem AnyAddress.before_of_lt {a b : AnyAddress} (h : a < b) : a.Before b := by
  have hkey : a.key < b.key := h
  obtain ⟨f, m, hm⟩ := a
  obtain ⟨g, n, hn⟩ := b
  have hm' := Nat.lt_of_lt_of_le hm f.size_le
  have hn' := Nat.lt_of_lt_of_le hn g.size_le
  have hsize : Family.v6.size = 0x100000000000000000000000000000000 := by decide
  simp only [key, hsize] at hkey hm' hn'
  cases f with
  | v4 =>
      cases g with
      | v4 => exact .inr ⟨rfl, by simpa [Family.rank] using hkey⟩
      | v6 => exact .inl ⟨rfl, rfl⟩
  | v6 =>
      cases g with
      | v4 =>
          simp only [Family.rank] at hkey
          omega
      | v6 => exact .inr ⟨rfl, by simpa [Family.rank] using hkey⟩

/-- Ranges are listed by address, and those of one address from the widest on. -/
def AnySubnet.Before (s t : AnySubnet) : Prop :=
  s.address.Before t.address ∨ s.address = t.address ∧ s.subnet.length < t.subnet.length

theorem AnySubnet.before_of_lt {s t : AnySubnet} (h : s < t) : s.Before t := by
  have hkey : s.key < t.key := h
  have hwidth : ∀ f : Family, f.width < 256 := fun f => by cases f <;> decide
  have hs := Nat.lt_of_le_of_lt s.subnet.length_le (hwidth s.family)
  have ht := Nat.lt_of_le_of_lt t.subnet.length_le (hwidth t.family)
  rw [key, key] at hkey
  by_cases hless : s.address.key < t.address.key
  · exact .inl (AnyAddress.before_of_lt hless)
  · exact .inr ⟨AnyAddress.key_injective (by omega), by omega⟩

/-- A set that has the members of a list is as large as the list without repetitions. -/
theorem SortedSet.size_eq_dedup {α : Type} [LT α] [LE α] [Std.IsLinearOrder α]
    [Std.LawfulOrderLT α] [DecidableEq α] {s : SortedSet α} {xs : List α}
    (h : ∀ x, x ∈ s ↔ x ∈ xs) : s.size = xs.dedup.length := by
  have hnodup : s.toList.Nodup := s.increasing.imp Std.ne_of_lt
  refine ((List.perm_ext_iff_of_nodup hnodup xs.nodup_dedup).mpr fun x => ?_).length_eq
  rw [List.mem_dedup]
  exact h x

/-! ## Uses that are alike -/

namespace Uses

variable {u v u' v' : Uses}

/-- The ranges are the same but for host bits, and the addresses and names are the same, in any order
and any number of times. -/
structure Alike (u v : Uses) : Prop where
  ranges : ∀ s, (∃ r ∈ u.ranges, s = r.masked) ↔ ∃ r ∈ v.ranges, s = r.masked
  addresses : ∀ a, a ∈ u.addresses ↔ a ∈ v.addresses
  names : ∀ n, n ∈ u.names ↔ n ∈ v.names

theorem Alike.append (h : u.Alike v) (h' : u'.Alike v') : (u.append u').Alike (v.append v') where
  ranges s := by
    simp only [Uses.append, List.mem_append, or_and_right, exists_or, h.ranges, h'.ranges]
  addresses a := by simp only [Uses.append, List.mem_append, h.addresses, h'.addresses]
  names n := by simp only [Uses.append, List.mem_append, h.names, h'.names]

theorem alike_ofAssets {es es' : List Asset} (h : ∀ e, e ∈ es ↔ e ∈ es') :
    (ofAssets es).Alike (ofAssets es') where
  ranges s := by simp only [ofAssets, List.mem_flatMap, h]
  addresses _ := Iff.rfl
  names n := by simp only [ofAssets, List.mem_flatMap, h]

theorem alike_ofInterfaces {is is' : List HostInterface} (h : ∀ i, i ∈ is ↔ i ∈ is') :
    (ofInterfaces is).Alike (ofInterfaces is') where
  ranges _ := Iff.rfl
  addresses a := by simp only [ofInterfaces, List.mem_flatMap, h]
  names n := by simp only [ofInterfaces, List.mem_map, h]

theorem alike_ofLeases {ls ls' : List Lease} (h : ∀ l, l ∈ ls ↔ l ∈ ls') :
    (ofLeases ls).Alike (ofLeases ls') where
  ranges _ := Iff.rfl
  addresses a := by simp only [ofLeases, List.mem_map, h]
  names n := by simp only [ofLeases, List.mem_map, h]

end Uses

namespace Occupancy

variable {o p : Occupancy} {u v : Uses}

/-- What an occupancy holds determines it. -/
theorem Holds.eq_of_alike (h : o.Holds u) (h' : p.Holds v) (halike : u.Alike v) : o = p := by
  obtain ⟨networks, addresses, names⟩ := o
  obtain ⟨networks', addresses', names'⟩ := p
  have hnetworks : networks = networks' := SortedSet.ext fun s => by
    rw [h.networks s, h'.networks s, halike.ranges]
  have haddresses : addresses = addresses' := SortedSet.ext fun a => by
    rw [h.addresses a, h'.addresses a, halike.addresses]
  have hnames : names = names' := SortedSet.ext fun n => by
    rw [h.names n, h'.names n, halike.names]
  rw [hnetworks, haddresses, hnames]

/-- An occupancy lists the uses in order, each of them once, and the ranges without host bits. -/
structure Listed (o : Occupancy) (u : Uses) : Prop where
  networks : o.networks.toList.Pairwise AnySubnet.Before
  addresses : o.addresses.toList.Pairwise AnyAddress.Before
  names : o.names.toList.Pairwise (· < ·)
  masked : ∀ s ∈ o.networks.toList, s.masked = s
  networkCount : o.networks.size = (u.ranges.map AnySubnet.masked).dedup.length
  addressCount : o.addresses.size = u.addresses.dedup.length
  nameCount : o.names.size = u.names.dedup.length

theorem Holds.listed (h : o.Holds u) : o.Listed u where
  networks := o.networks.increasing.imp AnySubnet.before_of_lt
  addresses := o.addresses.increasing.imp AnyAddress.before_of_lt
  names := o.names.increasing
  masked s hs := by
    obtain ⟨r, _, rfl⟩ := (h.networks s).mp hs
    exact congrArg AnySubnet.of r.subnet.masked_masked
  networkCount := SortedSet.size_eq_dedup fun s => by
    simp only [h.networks, List.mem_map, eq_comm]
  addressCount := SortedSet.size_eq_dedup h.addresses
  nameCount := SortedSet.size_eq_dedup h.names

end Occupancy

end NetPool
