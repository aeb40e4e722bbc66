import NetPool.Net.Subnet

/-! # Shared addresses

Two subnets overlap exactly if an address lies in both of them. -/

namespace NetPool

/-- Some address lies in both ranges. -/
def AnySubnet.Shares (s t : AnySubnet) : Prop :=
  ∃ a : AnyAddress, s.covers a = true ∧ t.covers a = true

namespace Subnet

variable {f : Family} {s t : Subnet f}

theorem covers_base (s : Subnet f) : s.covers s.base = true := by
  have hpos := s.size_pos
  rw [covers_iff]
  omega

/-- Two ranges that meet hold the first address of one of them. -/
theorem overlaps_iff : s.overlaps t = true ↔ ∃ n, s.covers n = true ∧ t.covers n = true := by
  rw [overlaps, Bool.or_eq_true]
  constructor
  · rintro (h | h)
    · exact ⟨t.base, h, t.covers_base⟩
    · exact ⟨s.base, s.covers_base, h⟩
  · rintro ⟨n, hs, ht⟩
    rw [covers_iff] at hs ht
    by_cases hle : s.base ≤ t.base
    · left
      rw [covers_iff]
      omega
    · right
      rw [covers_iff]
      omega

@[simp] theorem masked_covers (s : Subnet f) (n : Nat) : s.masked.covers n = s.covers n := by
  simp [covers]

/-! ## Ranges as blocks

The ranges of one prefix length cut the address space into blocks, and the number of its block is
what an address has in common with all others of the range. -/

theorem size_dvd (s : Subnet f) : s.size ∣ f.size := Nat.pow_dvd_pow 2 (Nat.sub_le _ _)

theorem size_dvd_size (h : t.length ≤ s.length) : s.size ∣ t.size :=
  Nat.pow_dvd_pow 2 (Nat.sub_le_sub_left h f.width)

theorem covers_iff_div {n : Nat} :
    s.covers n = true ↔ n / s.size = s.address.value / s.size := by
  rw [covers_iff, base, Nat.div_eq_iff s.size_pos]
  have hpos := s.size_pos
  omega

/-- What lies in one narrow block lies in one wide block. -/
theorem div_size_congr (hlength : t.length ≤ s.length) {m n : Nat} (h : m / s.size = n / s.size) :
    m / t.size = n / t.size := by
  obtain ⟨k, hk⟩ := size_dvd_size hlength
  calc m / t.size
      = m / s.size / k := by rw [hk, Nat.div_div_eq_div_mul]
    _ = n / s.size / k := by rw [h]
    _ = n / t.size := by rw [hk, Nat.div_div_eq_div_mul]

/-- A range that meets a wider one lies in it. -/
theorem div_eq_of_overlaps (h : s.overlaps t = true) (hlength : t.length ≤ s.length) :
    s.address.value / t.size = t.address.value / t.size := by
  obtain ⟨n, hs, ht⟩ := overlaps_iff.mp h
  rw [covers_iff_div] at hs ht
  exact (div_size_congr hlength hs.symm).trans ht

/-- The address has the leading bits that name the network. -/
def Contains (s : Subnet f) (a : Address f) : Prop :=
  a.value >>> (f.width - s.length) = s.address.value >>> (f.width - s.length)

theorem contains_iff {a : Address f} : s.Contains a ↔ s.covers a.value = true := by
  rw [Contains, Nat.shiftRight_eq_div_pow, Nat.shiftRight_eq_div_pow, covers_iff_div]
  rfl

theorem Contains.of_overlaps {a : Address f} (ha : s.Contains a) (h : s.overlaps t = true)
    (hlength : t.length ≤ s.length) : t.Contains a := by
  rw [contains_iff, covers_iff_div] at ha ⊢
  exact (div_size_congr hlength ha).trans (div_eq_of_overlaps h hlength)

end Subnet

namespace AnySubnet

variable {s t : AnySubnet}

theorem Shares.symm (h : s.Shares t) : t.Shares s := by
  obtain ⟨a, hs, ht⟩ := h
  exact ⟨a, ht, hs⟩

theorem covers_eq_true_iff {a : AnyAddress} :
    s.covers a = true ↔ s.family = a.family ∧ s.subnet.covers a.address.value = true := by
  simp [covers]

theorem shares_of_iff {f : Family} (s t : Subnet f) :
    (of s).Shares (of t) ↔ s.overlaps t = true := by
  constructor
  · rintro ⟨a, hs, ht⟩
    rw [covers_eq_true_iff] at hs ht
    exact Subnet.overlaps_iff.mpr ⟨a.address.value, hs.2, ht.2⟩
  · intro h
    rcases (Bool.or_eq_true _ _).mp h with h | h
    · exact ⟨⟨f, t.baseAddress⟩, covers_eq_true_iff.mpr ⟨rfl, h⟩,
        covers_eq_true_iff.mpr ⟨rfl, t.covers_base⟩⟩
    · exact ⟨⟨f, s.baseAddress⟩, covers_eq_true_iff.mpr ⟨rfl, s.covers_base⟩,
        covers_eq_true_iff.mpr ⟨rfl, h⟩⟩

theorem not_shares_of_ne (h : s.family ≠ t.family) : ¬ s.Shares t := by
  rintro ⟨a, hs, ht⟩
  rw [covers_eq_true_iff] at hs ht
  exact h (hs.1.trans ht.1.symm)

/-- Subnets overlap if and only if they share an address. -/
theorem overlaps_iff_shares : s.overlaps t = true ↔ s.Shares t := by
  rcases s with ⟨f, s⟩
  rcases t with ⟨g, t⟩
  cases f with
  | v4 =>
      cases g with
      | v4 => exact (shares_of_iff s t).symm
      | v6 =>
          have hnot : ¬ (⟨.v4, s⟩ : AnySubnet).Shares ⟨.v6, t⟩ := not_shares_of_ne nofun
          simp [overlaps, hnot]
  | v6 =>
      cases g with
      | v4 =>
          have hnot : ¬ (⟨.v6, s⟩ : AnySubnet).Shares ⟨.v4, t⟩ := not_shares_of_ne nofun
          simp [overlaps, hnot]
      | v6 => exact (shares_of_iff s t).symm

instance (s t : AnySubnet) : Decidable (s.Shares t) := decidable_of_iff _ overlaps_iff_shares

theorem masked_covers (s : AnySubnet) (a : AnyAddress) : s.masked.covers a = s.covers a := by
  change (decide (s.family = a.family) && s.subnet.masked.covers a.address.value) = _
  rw [Subnet.masked_covers]
  rfl

/-- A range holds addresses of its own family only, those with its leading bits. -/
theorem covers_of_iff {f : Family} {s : Subnet f} {a : AnyAddress} :
    (of s).covers a = true ↔ ∃ b : Address f, a = ⟨f, b⟩ ∧ s.Contains b := by
  rw [covers_eq_true_iff]
  constructor
  · obtain ⟨g, b⟩ := a
    rintro ⟨hfamily, hcovers⟩
    obtain rfl : f = g := hfamily
    exact ⟨b, rfl, Subnet.contains_iff.mpr hcovers⟩
  · rintro ⟨b, rfl, hb⟩
    exact ⟨rfl, Subnet.contains_iff.mp hb⟩

/-- Only ranges of one family share addresses. -/
theorem shares_of_iff_exists {f : Family} {r : AnySubnet} {s : Subnet f} :
    r.Shares (of s) ↔
      ∃ t : Subnet f, r = of t ∧ ∃ a : Address f, t.Contains a ∧ s.Contains a := by
  obtain ⟨g, t⟩ := r
  constructor
  · rintro ⟨a, ht, hs⟩
    obtain ⟨b, rfl, hb⟩ := covers_of_iff.mp hs
    obtain ⟨hfamily, _⟩ := covers_eq_true_iff.mp ht
    obtain rfl : g = f := hfamily
    obtain ⟨c, hc, htc⟩ := covers_of_iff.mp ht
    cases hc
    exact ⟨t, rfl, b, htc, hb⟩
  · rintro ⟨t', ht', a, hta, hsa⟩
    rw [ht']
    exact ⟨⟨f, a⟩, covers_of_iff.mpr ⟨a, rfl, hta⟩, covers_of_iff.mpr ⟨a, rfl, hsa⟩⟩

/-- Host bits do not matter for the addresses of a range. -/
theorem masked_shares : s.masked.Shares t ↔ s.Shares t := by
  simp only [Shares, masked_covers]

/-! ## Nested ranges -/

/-- The subnet holds the addresses of its family that have its leading bits. -/
def Holds (s : AnySubnet) (a : AnyAddress) : Prop :=
  ∃ b : Address s.family, a = ⟨s.family, b⟩ ∧ s.subnet.Contains b

/-- Two subnets of one family, of which the narrower one lies in the other. Those of one prefix
length lie in each other. -/
structure Nested (s t : AnySubnet) : Prop where
  family : s.family = t.family
  left : t.subnet.length ≤ s.subnet.length → ∀ a, s.Holds a → t.Holds a
  right : s.subnet.length ≤ t.subnet.length → ∀ a, t.Holds a → s.Holds a

/-- The prefix length stays and the address is another one. -/
def withAddress (s : AnySubnet) (a : Address s.family) : AnySubnet :=
  ⟨s.family, a, s.subnet.length, s.subnet.length_le⟩

theorem holds_iff {a : AnyAddress} : s.Holds a ↔ s.covers a = true := covers_of_iff.symm

theorem overlaps_of {f : Family} (s t : Subnet f) : (of s).overlaps (of t) = s.overlaps t := by
  cases f <;> rfl

theorem overlaps_iff_holds : s.overlaps t = true ↔ ∃ a, s.Holds a ∧ t.Holds a := by
  simp only [overlaps_iff_shares, Shares, holds_iff]

theorem overlaps_comm (s t : AnySubnet) : t.overlaps s = s.overlaps t := by
  rw [Bool.eq_iff_iff, overlaps_iff_shares, overlaps_iff_shares]
  exact ⟨Shares.symm, Shares.symm⟩

theorem overlaps_eq_false_of_ne (h : s.family ≠ t.family) : s.overlaps t = false := by
  rw [Bool.eq_false_iff, Ne, overlaps_iff_shares]
  exact not_shares_of_ne h

theorem family_eq_of_overlaps (h : s.overlaps t = true) : s.family = t.family :=
  Decidable.byContradiction fun hne => Bool.false_ne_true ((overlaps_eq_false_of_ne hne).symm.trans h)

theorem holds_self (s : AnySubnet) : s.Holds s.address := ⟨s.subnet.address, rfl, rfl⟩

theorem Holds.of_overlaps {a : AnyAddress} (ha : s.Holds a) (h : s.overlaps t = true)
    (hlength : t.subnet.length ≤ s.subnet.length) : t.Holds a := by
  obtain ⟨f, s⟩ := s
  obtain ⟨g, t⟩ := t
  obtain rfl : f = g := family_eq_of_overlaps h
  obtain ⟨b, rfl, hb⟩ := ha
  exact ⟨b, rfl, hb.of_overlaps ((overlaps_of s t).symm.trans h) hlength⟩

/-- Ranges that meet are nested, since their blocks are aligned. -/
theorem overlaps_iff_nested : s.overlaps t = true ↔ s.Nested t := by
  constructor
  · intro h
    exact ⟨family_eq_of_overlaps h, fun hlength _ ha => ha.of_overlaps h hlength,
      fun hlength _ ha => ha.of_overlaps ((overlaps_comm s t).trans h) hlength⟩
  · rintro ⟨-, hleft, hright⟩
    rw [overlaps_iff_holds]
    rcases Nat.le_total t.subnet.length s.subnet.length with hlength | hlength
    · exact ⟨s.address, s.holds_self, hleft hlength _ s.holds_self⟩
    · exact ⟨t.address, hright hlength _ t.holds_self, t.holds_self⟩

theorem withAddress_holds {a : Address s.family} (ha : s.subnet.Contains a) (b : AnyAddress) :
    (s.withAddress a).Holds b ↔ s.Holds b := by
  have hleading (c : Address s.family) :
      (s.withAddress a).subnet.Contains c ↔ s.subnet.Contains c := by
    unfold Subnet.Contains
    rw [← ha]
    rfl
  exact exists_congr fun c => and_congr_right fun _ => hleading c

/-- Two subnets overlap exactly if they share an address, and exactly if one of them lies in the other.
It does not matter which one comes first or which host bits they have, and only subnets of one family
overlap. -/
theorem overlaps_exact (s t : AnySubnet) :
    (s.overlaps t = true ↔ ∃ a, s.Holds a ∧ t.Holds a) ∧
      (s.overlaps t = true ↔ s.Nested t) ∧
      t.overlaps s = s.overlaps t ∧
      (∀ a b, s.subnet.Contains a → t.subnet.Contains b →
        (s.withAddress a).overlaps (t.withAddress b) = s.overlaps t) ∧
      (s.family ≠ t.family → s.overlaps t = false) := by
  refine ⟨overlaps_iff_holds, overlaps_iff_nested, overlaps_comm s t, fun a b ha hb => ?_,
    overlaps_eq_false_of_ne⟩
  rw [Bool.eq_iff_iff, overlaps_iff_holds, overlaps_iff_holds]
  simp only [withAddress_holds ha, withAddress_holds hb]

/-- A short range, with host bits. -/
def inner : Subnet .v4 := ⟨⟨0x0a010203, by decide⟩, 26, by decide⟩

/-- A wider range around it, with host bits too. -/
def outer : Subnet .v4 := ⟨⟨0x0ac80009, by decide⟩, 6, by decide⟩

/-- The lower half of the long addresses. -/
def lowerLong : Subnet .v6 := ⟨⟨7, by decide⟩, 1, by decide⟩

theorem overlaps_exact_inner :
    (of inner).Nested (of outer) ∧
      ((of inner).withAddress inner.baseAddress).overlaps
        ((of outer).withAddress outer.baseAddress) = true ∧
      (of inner).overlaps (of lowerLong) = false := by
  obtain ⟨-, hnested, -, hhosts, -⟩ := overlaps_exact (of inner) (of outer)
  obtain ⟨-, -, -, -, hfamilies⟩ := overlaps_exact (of inner) (of lowerLong)
  have hoverlaps : (of inner).overlaps (of outer) = true := by decide
  have hbases := hhosts inner.baseAddress outer.baseAddress rfl rfl
  exact ⟨hnested.mp hoverlaps, hbases.trans hoverlaps, hfamilies nofun⟩

end AnySubnet

end NetPool
