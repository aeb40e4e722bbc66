import NetPool.Net.Address

/-! # Subnets

A subnet is an address with a prefix length. Its range starts at `base`, the address with the
host bits cleared, and holds `size` addresses. Host bits are kept until a subnet is `masked`. -/

namespace NetPool

/-- An address and the number of its leading bits that name the network. -/
structure Subnet (f : Family) where
  address : Address f
  length : Nat
  length_le : length ≤ f.width
  deriving DecidableEq, Repr

namespace Subnet

variable {f : Family}

/-- The number of addresses in the range. -/
def size (s : Subnet f) : Nat := Nat.pow 2 (f.width - s.length)

def base (s : Subnet f) : Nat := s.address.value / s.size * s.size

theorem size_pos (s : Subnet f) : 0 < s.size := Nat.two_pow_pos _

theorem base_le (s : Subnet f) : s.base ≤ s.address.value := Nat.div_mul_le_self _ _

theorem base_lt (s : Subnet f) : s.base < f.size :=
  Nat.lt_of_le_of_lt s.base_le s.address.value_lt

@[ext] theorem ext {s t : Subnet f} (ha : s.address = t.address) (hl : s.length = t.length) :
    s = t := by
  cases s; cases t; cases ha; cases hl; rfl

def baseAddress (s : Subnet f) : Address f := ⟨s.base, s.base_lt⟩

/-- The same range with the host bits cleared. -/
def masked (s : Subnet f) : Subnet f := ⟨s.baseAddress, s.length, s.length_le⟩

def covers (s : Subnet f) (n : Nat) : Bool := s.base ≤ n && n < s.base + s.size

/-- Whether two ranges share an address: one of them holds the first address of the other. -/
def overlaps (s t : Subnet f) : Bool := s.covers t.base || t.covers s.base

theorem covers_iff {s : Subnet f} {n : Nat} :
    s.covers n = true ↔ s.base ≤ n ∧ n < s.base + s.size := by
  simp [covers]

@[simp] theorem masked_length (s : Subnet f) : s.masked.length = s.length := rfl

@[simp] theorem masked_size (s : Subnet f) : s.masked.size = s.size := rfl

@[simp] theorem masked_base (s : Subnet f) : s.masked.base = s.base := by
  show s.base / s.size * s.size = s.base
  rw [base, Nat.mul_div_cancel _ s.size_pos]

@[simp] theorem masked_masked (s : Subnet f) : s.masked.masked = s.masked :=
  Subnet.ext (Address.ext s.masked_base) rfl

end Subnet

/-- A subnet of either family. -/
structure AnySubnet where
  family : Family
  subnet : Subnet family
  deriving DecidableEq

namespace AnySubnet

def of {f : Family} (s : Subnet f) : AnySubnet := ⟨f, s⟩

def address (s : AnySubnet) : AnyAddress := ⟨s.family, s.subnet.address⟩

def masked (s : AnySubnet) : AnySubnet := ⟨s.family, s.subnet.masked⟩

/-- Whether the range holds the address; never one of the other family. -/
def covers (s : AnySubnet) (a : AnyAddress) : Bool :=
  s.family = a.family && s.subnet.covers a.address.value

/-- Whether two ranges share an address; never across families. -/
def overlaps : AnySubnet → AnySubnet → Bool
  | ⟨.v4, s⟩, ⟨.v4, t⟩ => s.overlaps t
  | ⟨.v6, s⟩, ⟨.v6, t⟩ => s.overlaps t
  | _, _ => false

def key (s : AnySubnet) : Nat := s.address.key * 256 + s.subnet.length

theorem key_injective {s t : AnySubnet} (h : s.key = t.key) : s = t := by
  obtain ⟨f, a, m, hm⟩ := s
  obtain ⟨g, b, n, hn⟩ := t
  have hf : f.width < 256 := by cases f <;> decide
  have hg : g.width < 256 := by cases g <;> decide
  simp only [key, address] at h
  have hmn : m = n := by omega
  have hab : (⟨f, a⟩ : AnyAddress) = ⟨g, b⟩ := AnyAddress.key_injective (by omega)
  cases hab
  cases hmn
  rfl

instance : LE AnySubnet := ⟨fun s t => s.key ≤ t.key⟩
instance : LT AnySubnet := ⟨fun s t => s.key < t.key⟩
instance : DecidableLT AnySubnet := fun s t => inferInstanceAs (Decidable (s.key < t.key))

instance : Std.IsLinearOrder AnySubnet where
  le_refl s := Nat.le_refl s.key
  le_trans _ _ _ := Nat.le_trans
  le_antisymm _ _ h₁ h₂ := key_injective (Nat.le_antisymm h₁ h₂)
  le_total s t := Nat.le_total s.key t.key

instance : Std.LawfulOrderLT AnySubnet where
  lt_iff _ _ := Nat.lt_iff_le_and_not_ge

end AnySubnet
end NetPool
