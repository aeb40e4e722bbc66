import Mathlib.Order.Monotone.Basic
import NetPool.Net.Walk
import NetPool.Proofs.Net.Overlap

/-! # Candidates of a walk

The candidates of a walk lie one stride apart and go on up to the end of the address space, so their
number is known beforehand. -/

namespace NetPool

namespace Subnet

variable {f : Family} {s t : Subnet f}

/-- Where a walk counts from: the first address of a short range, a long address as it is. -/
def origin : {f : Family} → Subnet f → Nat
  | .v4, s => s.base
  | .v6, s => s.address.value

/-- The distance between a candidate and the next. -/
def stride : {f : Family} → Subnet f → Nat
  | .v4, s => s.size
  | .v6, _ => siteStride

/-- The number of candidates from here to the end of the address space. -/
def walkLength : {f : Family} → Subnet f → Nat
  | .v4, s => (Family.v4.size - s.base) / s.size
  | .v6, s => (Family.v6.size - 1 - s.address.value) / siteStride + 1

theorem origin_lt (s : Subnet f) : s.origin < f.size := by
  cases f with
  | v4 => exact s.base_lt
  | v6 => exact s.address.value_lt

theorem origin_div_size (s : Subnet f) : s.origin / s.size = s.address.value / s.size := by
  cases f with
  | v4 => exact Nat.mul_div_cancel _ s.size_pos
  | v6 => rfl

/-! ## One step -/

theorem next?_eq_some (h : s.next? = some t) :
    t.address.value = s.nextValue ∧ t.length = s.length := by
  obtain ⟨a, ha, rfl⟩ := Option.map_eq_some_iff.mp h
  rw [Address.ofNat?] at ha
  split at ha
  · obtain rfl := Option.some.inj ha
    exact ⟨rfl, rfl⟩
  · cases ha

theorem isSome_next?_iff : s.next?.isSome = true ↔ s.nextValue < f.size := by
  rw [next?, Option.isSome_map, Address.ofNat?]
  split <;> simp [*]

theorem nextValue_eq (s : Subnet f) : s.nextValue = s.origin + s.stride := by
  cases f <;> rfl

theorem size_congr (h : t.length = s.length) : t.size = s.size := by
  rw [size, size, h]

theorem stride_congr (h : t.length = s.length) : t.stride = s.stride := by
  cases f with
  | v4 => exact size_congr h
  | v6 => rfl

/-- A step goes one stride further. -/
theorem origin_of_next? (h : s.next? = some t) : t.origin = s.origin + s.stride := by
  obtain ⟨haddress, hlength⟩ := next?_eq_some h
  rw [nextValue_eq] at haddress
  cases f with
  | v4 =>
      -- The next short candidate starts where the range before it ends, so it has no host bits.
      have hsize := size_congr hlength
      change t.address.value / t.size * t.size = s.base + s.size
      rw [haddress, hsize]
      apply Nat.div_mul_cancel
      exact Nat.dvd_add (Nat.dvd_mul_left _ _) (Nat.dvd_refl _)
  | v6 => exact haddress

/-! ## Many steps -/

theorem walk?_succ (s : Subnet f) (k : Nat) : s.walk? (k + 1) = s.next?.bind (·.walk? k) := by
  induction k with
  | zero =>
      rw [walk?, walk?, Option.bind_some]
      cases s.next? with
      | none => rfl
      | some t => rfl
  | succ k ih =>
      rw [walk?, ih]
      cases s.next? with
      | none => rfl
      | some t => rfl

/-- A candidate has the prefix length of the start and lies a number of strides after it. -/
theorem origin_of_walk? {k : Nat} (h : s.walk? k = some t) :
    t.length = s.length ∧ t.origin = s.origin + k * s.stride := by
  induction k generalizing t with
  | zero =>
      obtain rfl := Option.some.inj h
      simp
  | succ k ih =>
      obtain ⟨u, hu, hnext⟩ := Option.bind_eq_some_iff.mp h
      obtain ⟨hlength, horigin⟩ := ih hu
      refine ⟨(next?_eq_some hnext).2.trans hlength, ?_⟩
      rw [origin_of_next? hnext, horigin, stride_congr hlength, Nat.succ_mul, Nat.add_assoc]

/-- The walk goes on as long as there are addresses. -/
theorem isSome_walk?_iff {k : Nat} :
    (s.walk? k).isSome = true ↔ s.origin + k * s.stride < f.size := by
  induction k with
  | zero => simpa [walk?] using s.origin_lt
  | succ k ih =>
      rw [walk?, Nat.succ_mul]
      cases hwalk : s.walk? k with
      | none =>
          simp only [hwalk, Option.isSome_none, Bool.false_eq_true, false_iff] at ih
          simp only [Option.bind_none, Option.isSome_none, Bool.false_eq_true, false_iff]
          omega
      | some u =>
          obtain ⟨hlength, horigin⟩ := origin_of_walk? hwalk
          rw [Option.bind_some, isSome_next?_iff, nextValue_eq, horigin, stride_congr hlength,
            Nat.add_assoc]

theorem lt_walkLength_iff {k : Nat} : k < s.walkLength ↔ s.origin + k * s.stride < f.size := by
  cases f with
  | v4 =>
      obtain ⟨blocks, hblocks⟩ := s.size_dvd
      have hpos := s.size_pos
      have hrest : s.walkLength = blocks - s.address.value / s.size := by
        rw [walkLength, hblocks, base, Nat.mul_comm s.size, ← Nat.sub_mul,
          Nat.mul_div_cancel _ hpos]
      rw [hrest, hblocks, origin, stride, base, ← Nat.add_mul, Nat.mul_comm s.size,
        Nat.mul_lt_mul_right hpos]
      omega
  | v6 =>
      have hlt := s.address.value_lt
      rw [walkLength, Nat.lt_add_one_iff, Nat.le_div_iff_mul_le (by decide), origin, stride]
      omega

/-- The walk has as many candidates as its length says. -/
theorem isSome_walk?_iff_lt {k : Nat} : (s.walk? k).isSome = true ↔ k < s.walkLength := by
  rw [isSome_walk?_iff, lt_walkLength_iff]

theorem walkLength_of_next?_none (h : s.next? = none) : s.walkLength = 1 := by
  have hfirst : 0 < s.walkLength := isSome_walk?_iff_lt.mp rfl
  have hsecond : ¬ 1 < s.walkLength := by
    rw [← isSome_walk?_iff_lt, walk?_succ, h]
    simp
  omega

theorem walkLength_of_next?_some (h : s.next? = some t) : s.walkLength = t.walkLength + 1 := by
  have hstep : ∀ k, k + 1 < s.walkLength ↔ k < t.walkLength := by
    intro k
    rw [← isSome_walk?_iff_lt, ← isSome_walk?_iff_lt, walk?_succ, h, Option.bind_some]
  have hfirst : 0 < t.walkLength := isSome_walk?_iff_lt.mp rfl
  have hlast := hstep (t.walkLength - 1)
  have hbeyond := hstep t.walkLength
  omega

/-! ## Blocks -/

/-- The number of candidates of a walk that can lie in one range of their prefix length. Long
candidates are `2 ^ 72` apart, which is less than the size of a range shorter than `/56`. -/
def candidatesPerRange : {f : Family} → Subnet f → Nat
  | .v4, _ => 1
  | .v6, s => if s.length < 56 then Nat.pow 2 (56 - s.length) else 1

theorem size_le_strides (s : Subnet f) : s.size ≤ s.candidatesPerRange * s.stride := by
  cases f with
  | v4 => exact Nat.le_of_eq (Nat.one_mul _).symm
  | v6 =>
      have hstride : siteStride = 2 ^ 72 := by decide
      have hsize : s.size = 2 ^ (128 - s.length) := rfl
      rw [candidatesPerRange, stride, hstride, hsize]
      split
      · rename_i hshort
        change 2 ^ (128 - s.length) ≤ 2 ^ (56 - s.length) * 2 ^ 72
        rw [← Nat.pow_add]
        exact Nat.pow_le_pow_right (by decide) (by omega)
      · rw [Nat.one_mul]
        exact Nat.pow_le_pow_right (by decide) (by omega)

/-- The block that holds the candidate with a number, in ranges of the start's prefix length. -/
def block (s : Subnet f) (k : Nat) : Nat := (s.origin + k * s.stride) / s.size

theorem block_of_walk? {k : Nat} (h : s.walk? k = some t) :
    t.address.value / s.size = s.block k := by
  obtain ⟨hlength, horigin⟩ := origin_of_walk? h
  rw [block, ← horigin, ← size_congr hlength, origin_div_size]

theorem block_lt {i j : Nat} (h : i < j) :
    s.block (i * s.candidatesPerRange) < s.block (j * s.candidatesPerRange) := by
  have hsteps : (i + 1) * (s.candidatesPerRange * s.stride) ≤
      j * (s.candidatesPerRange * s.stride) := Nat.mul_le_mul_right _ h
  have hsize := s.size_le_strides
  rw [block, block, Nat.mul_assoc, Nat.mul_assoc]
  rw [Nat.succ_mul] at hsteps
  calc (s.origin + i * (s.candidatesPerRange * s.stride)) / s.size
      < (s.origin + i * (s.candidatesPerRange * s.stride)) / s.size + 1 := Nat.lt_succ_self _
    _ = (s.origin + i * (s.candidatesPerRange * s.stride) + s.size) / s.size :=
        (Nat.add_div_right _ s.size_pos).symm
    _ ≤ (s.origin + j * (s.candidatesPerRange * s.stride)) / s.size :=
        Nat.div_le_div_right (by omega)

/-- Candidates that far apart lie in different blocks. -/
theorem block_injective (s : Subnet f) :
    Function.Injective fun i => s.block (i * s.candidatesPerRange) :=
  StrictMono.injective fun _ _ h => block_lt h

theorem overlaps_iff_div (h : t.length = s.length) :
    s.overlaps t = true ↔ s.address.value / s.size = t.address.value / s.size := by
  constructor
  · intro hoverlaps
    have hdiv := div_eq_of_overlaps hoverlaps (Nat.le_of_eq h)
    rwa [size_congr h] at hdiv
  · intro hdiv
    rw [overlaps_iff]
    refine ⟨s.address.value, covers_iff_div.mpr rfl, covers_iff_div.mpr ?_⟩
    rw [size_congr h, hdiv]

/-- Candidates overlap exactly if they lie in one block. -/
theorem overlaps_iff_block {i j : Nat} {u v : Subnet f} (hu : s.walk? i = some u)
    (hv : s.walk? j = some v) : u.overlaps v = true ↔ s.block i = s.block j := by
  have hlength := (origin_of_walk? hu).1
  have hsame := (origin_of_walk? hv).1.trans hlength.symm
  rw [overlaps_iff_div hsame, size_congr hlength, block_of_walk? hu, block_of_walk? hv]

theorem eq_of_block_eq (hone : s.candidatesPerRange = 1) {i j : Nat} (h : s.block i = s.block j) :
    i = j := by
  apply s.block_injective
  simpa only [hone, Nat.mul_one] using h

/-! ## Closed forms -/

/-- After a step the address is known from the number of steps. -/
theorem address_of_walk?_succ {k : Nat} (h : s.walk? (k + 1) = some t) :
    t.address.value = s.origin + (k + 1) * s.stride := by
  obtain ⟨u, hu, hnext⟩ := Option.bind_eq_some_iff.mp h
  obtain ⟨hlength, horigin⟩ := origin_of_walk? hu
  rw [(next?_eq_some hnext).1, nextValue_eq, horigin, stride_congr hlength, Nat.succ_mul,
    Nat.add_assoc]

theorem walk?_eq {k : Nat}
    (haddress : ∀ t, s.walk? k = some t → t.address.value = s.origin + k * s.stride) :
    s.walk? k = if h : s.origin + k * s.stride < f.size then some ⟨⟨_, h⟩, s.length, s.length_le⟩
      else none := by
  have hsome := isSome_walk?_iff (s := s) (k := k)
  cases hwalk : s.walk? k with
  | none =>
      rw [hwalk] at hsome
      rw [dif_neg (fun h => Bool.false_ne_true (hsome.mpr h))]
  | some t =>
      rw [hwalk] at hsome
      rw [dif_pos (hsome.mp rfl)]
      exact congrArg some (Subnet.ext (Address.ext (haddress t hwalk)) (origin_of_walk? hwalk).1)

/-- The walk from a short start. -/
structure ShortWalk (s : Subnet .v4) : Prop where
  /-- From the first step on, the candidates are the next ranges without host bits. -/
  candidate : ∀ k, 1 ≤ k → s.walk? k =
    if h : s.base + k * Nat.pow 2 (32 - s.length) < Nat.pow 2 32 then
      some ⟨⟨_, h⟩, s.length, s.length_le⟩
    else none
  /-- Each range from the first one on is that of just one candidate. -/
  once : ∀ t : Subnet .v4, t.masked = t → t.length = s.length → s.base ≤ t.base →
    ∃ k u, s.walk? k = some u ∧ u.masked = t ∧
      ∀ j v, s.walk? j = some v → v.masked = t → j = k
  /-- The ranges of a walk only go up, and never overlap. -/
  apart : ∀ i j u v, i < j → s.walk? i = some u → s.walk? j = some v →
    u.base < v.base ∧ (AnySubnet.of u).overlaps (AnySubnet.of v) = false

/-- The walk from a long start. -/
structure LongWalk (s : Subnet .v6) : Prop where
  candidate : ∀ k, s.walk? k =
    if h : s.address.value + k * Nat.pow 2 72 < Nat.pow 2 128 then
      some ⟨⟨_, h⟩, s.length, s.length_le⟩
    else none
  /-- The low bits of the address stay, host bits included. -/
  lowBits : ∀ k t, s.walk? k = some t →
    t.address.value % Nat.pow 2 72 = s.address.value % Nat.pow 2 72
  /-- Candidates overlap only if ranges are wider than their distance. -/
  overlap : ∀ i j u v, i ≠ j → s.walk? i = some u → s.walk? j = some v →
    ((AnySubnet.of u).overlaps (AnySubnet.of v) = true ↔
      s.length < 56 ∧ (s.address.value + i * Nat.pow 2 72) >>> (128 - s.length) =
        (s.address.value + j * Nat.pow 2 72) >>> (128 - s.length))

theorem masked_eq_iff (hmasked : t.masked = t) (hlength : s.length = t.length) :
    s.masked = t ↔ s.base = t.base := by
  constructor
  · rintro rfl
    exact s.masked_base.symm
  · intro hbase
    rw [← hmasked]
    exact Subnet.ext (Address.ext hbase) hlength

/-- The walk from a short start comes to every later range of its width. -/
theorem exists_walk?_of_base_le {s t : Subnet .v4} (hlength : t.length = s.length)
    (hle : s.base ≤ t.base) : ∃ k u, s.walk? k = some u ∧ u.base = t.base := by
  have htbase : t.base = t.address.value / s.size * s.size := by rw [base, size_congr hlength]
  have hblocks : s.address.value / s.size ≤ t.address.value / s.size := by
    rw [htbase] at hle
    exact Nat.le_of_mul_le_mul_right hle s.size_pos
  obtain ⟨k, hk⟩ := Nat.exists_eq_add_of_le hblocks
  have horigin : s.origin + k * s.stride = t.base := by
    rw [htbase, hk, Nat.add_mul]
    rfl
  have hsome : (s.walk? k).isSome = true := isSome_walk?_iff.mpr (horigin ▸ t.base_lt)
  obtain ⟨u, hu⟩ := Option.isSome_iff_exists.mp hsome
  exact ⟨k, u, hu, (origin_of_walk? hu).2.trans horigin⟩

theorem shortWalk (s : Subnet .v4) : s.ShortWalk where
  candidate k hk := by
    obtain ⟨j, rfl⟩ := Nat.exists_eq_add_of_le' hk
    exact walk?_eq fun t => address_of_walk?_succ
  once t hmasked hlength hle := by
    obtain ⟨k, u, hu, hbase⟩ := exists_walk?_of_base_le hlength hle
    obtain ⟨hulength, huorigin⟩ := origin_of_walk? hu
    refine ⟨k, u, hu, (masked_eq_iff hmasked (hulength.trans hlength.symm)).mpr hbase, ?_⟩
    intro j v hv hvmasked
    obtain ⟨hvlength, hvorigin⟩ := origin_of_walk? hv
    have hsame : v.origin = u.origin :=
      ((masked_eq_iff hmasked (hvlength.trans hlength.symm)).mp hvmasked).trans hbase.symm
    rw [hvorigin, huorigin] at hsame
    exact Nat.eq_of_mul_eq_mul_right s.size_pos (Nat.add_left_cancel hsame)
  apart i j u v hij hu hv := by
    constructor
    · have hsteps : i * s.size < j * s.size := Nat.mul_lt_mul_of_pos_right hij s.size_pos
      calc u.base = s.base + i * s.size := (origin_of_walk? hu).2
        _ < s.base + j * s.size := Nat.add_lt_add_left hsteps _
        _ = v.base := (origin_of_walk? hv).2.symm
    · rw [AnySubnet.overlaps_of, Bool.eq_false_iff, Ne, overlaps_iff_block hu hv]
      exact fun h => Nat.ne_of_lt hij (eq_of_block_eq rfl h)

theorem longWalk (s : Subnet .v6) : s.LongWalk where
  candidate k := walk?_eq fun t ht => (origin_of_walk? ht).2
  lowBits k t ht := by
    have horigin : t.address.value = s.address.value + k * siteStride := (origin_of_walk? ht).2
    have hstride : siteStride = Nat.pow 2 72 := by decide
    rw [horigin, hstride, Nat.add_mul_mod_self_right]
  overlap i j u v hij hu hv := by
    have hstride : siteStride = Nat.pow 2 72 := by decide
    rw [AnySubnet.overlaps_of, overlaps_iff_block hu hv, Nat.shiftRight_eq_div_pow,
      Nat.shiftRight_eq_div_pow, ← hstride]
    refine ⟨fun h => ⟨?_, h⟩, And.right⟩
    by_contra hlong
    have hone : s.candidatesPerRange = 1 := if_neg hlong
    exact hij (eq_of_block_eq hone h)

/-- All candidates of a walk are known beforehand, and so is which of them overlap. -/
theorem walk?_closed_form : (∀ s : Subnet .v4, s.ShortWalk) ∧ ∀ s : Subnet .v6, s.LongWalk :=
  ⟨shortWalk, longWalk⟩

end Subnet

end NetPool
