/-! # Addresses

An address is its number: the 32 or 128 bits of its family read as one natural number. -/

namespace NetPool

inductive Family where
  | v4
  | v6
  deriving DecidableEq, Repr

def Family.width : Family → Nat
  | .v4 => 32
  | .v6 => 128

def Family.size (f : Family) : Nat := Nat.pow 2 f.width

/-- The place of a family in sorted listings: the short addresses come first. -/
def Family.rank : Family → Nat
  | .v4 => 0
  | .v6 => 1

theorem Family.rank_injective {f g : Family} : f.rank = g.rank → f = g := by
  cases f <;> cases g <;> decide

theorem Family.size_le (f : Family) : f.size ≤ Family.v6.size := by
  cases f <;> decide

/-- An address of family `f`, as a number. -/
structure Address (f : Family) where
  value : Nat
  value_lt : value < f.size
  deriving DecidableEq, Repr

/-- The address of that number, if the family has one. -/
def Address.ofNat? {f : Family} (n : Nat) : Option (Address f) :=
  if h : n < f.size then some ⟨n, h⟩ else none

@[ext] theorem Address.ext {f : Family} {a b : Address f} (h : a.value = b.value) : a = b := by
  cases a; cases b; cases h; rfl

/-- An address of either family. -/
structure AnyAddress where
  family : Family
  address : Address family
  deriving DecidableEq

namespace AnyAddress

/-- Sorts by family, then by number. -/
def key (a : AnyAddress) : Nat := a.family.rank * Family.v6.size + a.address.value

theorem key_injective {a b : AnyAddress} (h : a.key = b.key) : a = b := by
  obtain ⟨fa, va, ha⟩ := a
  obtain ⟨fb, vb, hb⟩ := b
  have ha' := Nat.lt_of_lt_of_le ha fa.size_le
  have hb' := Nat.lt_of_lt_of_le hb fb.size_le
  have hs : Family.v6.size = 0x100000000000000000000000000000000 := by decide
  simp only [key, hs] at h ha' hb'
  obtain rfl : fa = fb := Family.rank_injective (by omega)
  obtain rfl : va = vb := by omega
  rfl

instance : LE AnyAddress := ⟨fun a b => a.key ≤ b.key⟩
instance : LT AnyAddress := ⟨fun a b => a.key < b.key⟩
instance : DecidableLT AnyAddress := fun a b => inferInstanceAs (Decidable (a.key < b.key))

instance : Std.IsLinearOrder AnyAddress where
  le_refl a := Nat.le_refl a.key
  le_trans _ _ _ := Nat.le_trans
  le_antisymm _ _ h₁ h₂ := key_injective (Nat.le_antisymm h₁ h₂)
  le_total a b := Nat.le_total a.key b.key

instance : Std.LawfulOrderLT AnyAddress where
  lt_iff _ _ := Nat.lt_iff_le_and_not_ge

end AnyAddress
end NetPool
