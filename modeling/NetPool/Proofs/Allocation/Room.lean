import Mathlib.Data.Finset.Card
import NetPool.Proofs.Allocation.FirstFit
import NetPool.Proofs.Text.Numeral

/-! # Room for a choice

What is in use stands against a bounded number of candidates, so a search that may try more of them
finds one. -/

namespace NetPool

/-- Of more different values than a list has, one is not in it. -/
theorem exists_not_mem_of_injective {α : Type} [DecidableEq α] (xs : List α) {value : Nat → α}
    (h : Function.Injective value) : ∃ i ≤ xs.length, value i ∉ xs := by
  by_contra hall
  have hmaps : Set.MapsTo value (Finset.range (xs.length + 1)) xs.toFinset := by
    intro i hi
    have hle := Nat.le_of_lt_succ (Finset.mem_range.mp hi)
    apply List.mem_toFinset.mpr
    by_contra hnot
    exact hall ⟨i, hle, hnot⟩
  have hcard := Finset.card_le_card_of_injOn value hmaps h.injOn
  have hlength := xs.toFinset_card_le
  rw [Finset.card_range] at hcard
  omega

namespace Occupancy

variable {f : Family} {o : Occupancy} {s t : Subnet f}

/-- The number of ranges and of addresses of a family that are in use. -/
def load (o : Occupancy) (f : Family) : Nat :=
  (o.networks.toList.filter (·.family = f)).length +
    (o.addresses.toList.filter (·.family = f)).length

/-- The blocks in which something of the family is in use. -/
def usedBlocks (o : Occupancy) (s : Subnet f) : List Nat :=
  (o.networks.toList.filter (·.family = f)).map (·.subnet.address.value / s.size) ++
    (o.addresses.toList.filter (·.family = f)).map (·.address.value / s.size)

theorem length_usedBlocks (o : Occupancy) (s : Subnet f) : (o.usedBlocks s).length = o.load f := by
  simp [usedBlocks, load]

/-- If nothing in use is wider than a range, all that conflicts with it lies in its block. -/
theorem mem_usedBlocks_of_conflicts
    (hnarrow : ∀ r : Subnet f, AnySubnet.of r ∈ o.networks → s.length ≤ r.length)
    (hlength : t.length = s.length) (h : o.conflicts (.of t) = true) :
    t.address.value / s.size ∈ o.usedBlocks s := by
  have hsize := Subnet.size_congr hlength
  rw [conflicts, Bool.or_eq_true, List.any_eq_true, List.any_eq_true] at h
  apply List.mem_append.mpr
  rcases h with ⟨⟨g, r⟩, hr, hoverlaps⟩ | ⟨⟨g, a⟩, ha, hcovers⟩
  · left
    have hshares := AnySubnet.overlaps_iff_shares.mp hoverlaps
    by_cases hfamily : g = f
    · subst hfamily
      have hsame : r.overlaps t = true := (AnySubnet.shares_of_iff r t).mp hshares
      have hle : t.length ≤ r.length := hlength ▸ hnarrow r hr
      have hblock := Subnet.div_eq_of_overlaps hsame hle
      rw [hsize] at hblock
      exact List.mem_map.mpr ⟨⟨g, r⟩, List.mem_filter.mpr ⟨hr, by simp⟩, hblock⟩
    · exact absurd hshares (AnySubnet.not_shares_of_ne hfamily)
  · right
    obtain ⟨hfamily, hcovers⟩ := AnySubnet.covers_eq_true_iff.mp hcovers
    obtain rfl : f = g := hfamily
    have hblock : a.value / t.size = t.address.value / t.size := Subnet.covers_iff_div.mp hcovers
    rw [hsize] at hblock
    exact List.mem_map.mpr ⟨⟨f, a⟩, List.mem_filter.mpr ⟨ha, by simp⟩, hblock⟩

/-- Among the first candidates of different blocks, one more than things in use, one is free. -/
theorem exists_free_candidate
    (hnarrow : ∀ r : Subnet f, AnySubnet.of r ∈ o.networks → s.length ≤ r.length) :
    ∃ i ≤ o.load f, ∀ t, s.walk? (i * s.candidatesPerRange) = some t →
      o.conflicts (.of t) = false := by
  obtain ⟨i, hi, hfree⟩ := exists_not_mem_of_injective (o.usedBlocks s) s.block_injective
  rw [length_usedBlocks] at hi
  refine ⟨i, hi, ?_⟩
  intro t ht
  apply Bool.eq_false_iff.mpr
  intro hconflicts
  have hused := mem_usedBlocks_of_conflicts hnarrow (Subnet.origin_of_walk? ht).1 hconflicts
  rw [Subnet.block_of_walk? ht] at hused
  exact hfree hused

end Occupancy

namespace Allocation

theorem numbered_injective (stem : String) : Function.Injective (numbered stem) := by
  intro i j h
  have hdigits : Nat.toDigits 10 i = Nat.toDigits 10 j :=
    String.ofList_injective ((String.append_right_inj stem).mp h)
  have hvalue := fun n => Numeral.value_toDigits (show 1 < 10 by decide) (by decide) n
  rw [← hvalue i, hdigits, hvalue]

theorem exists_free_name (o : Occupancy) (stem : String) :
    ∃ i ≤ o.names.size, o.hasName (numbered stem i) = false := by
  obtain ⟨i, hi, hfree⟩ := exists_not_mem_of_injective o.names.toList (numbered_injective stem)
  refine ⟨i, hi, ?_⟩
  apply Bool.eq_false_iff.mpr
  intro hused
  exact hfree (SortedSet.contains_iff.mp hused)

/-- No search fails without need. If what is in use is nowhere wider than the start, each range and
each address stands against no more candidates than lie in one range, so a walk with one candidate
more has a free one. Each name in use stands against one number only. -/
theorem pick_of_room (o : Occupancy) (maxAttempts : Nat) (field : Field) :
    (∀ (f : Family) (start : Subnet f),
      (∀ r : Subnet f, AnySubnet.of r ∈ o.networks → start.length ≤ r.length) →
      o.load f * start.candidatesPerRange < maxAttempts →
      (start.walk? (o.load f * start.candidatesPerRange)).isSome = true →
      ∃ k ≤ o.load f * start.candidatesPerRange, ∃ s, start.walk? k = some s ∧
        (pickSubnet maxAttempts field start).outcome o = (.ok s, o.addNetwork (.of s))) ∧
      ∀ stem : String, o.names.size < maxAttempts →
        (numbered stem o.names.size).utf8ByteSize ≤ maxNameBytes →
        ∃ k ≤ o.names.size, (pickName maxAttempts field stem).outcome o =
          (.ok (numbered stem k), o.addName (numbered stem k)) := by
  constructor
  · intro f start hnarrow hlimit hlast
    obtain ⟨i, hi, hfree⟩ := Occupancy.exists_free_candidate hnarrow
    have hle : i * start.candidatesPerRange ≤ o.load f * start.candidatesPerRange :=
      Nat.mul_le_mul_right _ hi
    have hwalk : (start.walk? (i * start.candidatesPerRange)).isSome = true := by
      rw [Subnet.isSome_walk?_iff_lt] at hlast ⊢
      exact Nat.lt_of_le_of_lt hle hlast
    obtain ⟨t, ht⟩ := Option.isSome_iff_exists.mp hwalk
    have hfinds := pickSubnet_findsFirst maxAttempts field start o
    obtain ⟨k, hk, s, hs, hok⟩ := hfinds.exists_le (Nat.lt_of_le_of_lt hle hlimit) ht (hfree t ht)
    refine ⟨k, Nat.le_trans hk hle, s, hs, ?_⟩
    exact outcome_of_ok (pickSubnet_outcome maxAttempts field start o) hok
  · intro stem hlimit hfits
    obtain ⟨i, hi, hfree⟩ := exists_free_name o stem
    have hroom := (numbered_fits_iff stem _).mp hfits
    have hfinds := pickName_findsFirst maxAttempts field stem o
    obtain ⟨k, hk, n, hn, hok⟩ := hfinds.exists_le (by omega) rfl hfree
    obtain rfl := Option.some.inj hn
    refine ⟨k, Nat.le_trans hk hi, ?_⟩
    exact outcome_of_ok (pickName_outcome maxAttempts field stem o) hok

/-- Two candidates of its walk lie in one range. -/
def paired : Subnet .v6 := ⟨⟨0x20010DB8000000000000000000000000, by decide⟩, 55, by decide⟩

/-- Two ranges and an address that stand against two candidates each, and three names. -/
def crowded : Occupancy :=
  let short : Subnet .v4 := ⟨⟨0x0A000000, by decide⟩, 8, by decide⟩
  let first : Subnet .v6 := ⟨⟨0x20010DB8000000000000000000000000, by decide⟩, 56, by decide⟩
  let third : Subnet .v6 := ⟨⟨0x20010DB8000005000000000000000001, by decide⟩, 64, by decide⟩
  let ranges := [.of short, .of first, .of third].foldl Occupancy.addNetwork .empty
  let busy := ranges.addAddress ⟨.v6, ⟨0x20010DB8000003000000000000000009, by decide⟩⟩
  ["br0", "br1", "br3"].foldl Occupancy.addName busy

/-- Six candidates are taken, so the seventh is the first that is free. -/
theorem pick_of_room_crowded :
    (∃ k ≤ 6, ∃ s, paired.walk? k = some s ∧
        (pickSubnet 7 .machineCidr6 paired).outcome crowded =
          (.ok s, crowded.addNetwork (.of s))) ∧
      ∃ k ≤ 3, (pickName 4 .networkIf "br").outcome crowded =
        (.ok (numbered "br" k), crowded.addName (numbered "br" k)) := by
  have hnarrow : ∀ r ∈ crowded.networks.toList, r.family = .v6 → 55 ≤ r.subnet.length := by decide
  have hload : crowded.load .v6 * paired.candidatesPerRange = 6 := by decide
  have hnames : crowded.names.size = 3 := by decide
  have hsubnet := (pick_of_room crowded 7 .machineCidr6).1 .v6 paired
  have hname := (pick_of_room crowded 4 .networkIf).2 "br"
  rw [hload] at hsubnet
  rw [hnames] at hname
  constructor
  · apply hsubnet
    · exact fun r hr => hnarrow (.of r) hr rfl
    · decide
    · decide
  · apply hname
    · decide
    · decide

end Allocation

end NetPool
