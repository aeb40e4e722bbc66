import Mathlib.Data.Nat.Digits.Defs
import NetPool.Decimal.Binary64

/-! # Natural numbers in the double format

The double format holds the first 53 bits of a natural number. A longer number is rounded, and what
is read back is a multiple of a power of two. -/

namespace NetPool.Binary64

/-- The multiple of `unit` nearest to a natural number, a tie to the even one. -/
def nearestMultiple (unit n : Nat) : Nat := unit * roundHalfEven n unit

theorem div_le_roundHalfEven (n unit : Nat) : n / unit ≤ roundHalfEven n unit := by
  simp only [roundHalfEven]
  split <;> omega

/-- Just the multiples are their own nearest ones. -/
theorem nearestMultiple_eq_self_iff {unit n : Nat} (hunit : 0 < unit) :
    nearestMultiple unit n = n ↔ unit ∣ n := by
  constructor
  · intro h
    exact ⟨roundHalfEven n unit, h.symm⟩
  · rintro ⟨q, rfl⟩
    have hround : roundHalfEven (unit * q) unit = q := by
      simp [roundHalfEven, Nat.mul_div_cancel_left q hunit, (Nat.ne_of_gt hunit).symm]
    rw [nearestMultiple, hround]

theorem scaled_natCast (num den e : Nat) : scaled num den e = (num, den * 2 ^ e) := by
  simp [scaled, Nat.shiftLeft_eq]

theorem scaled_neg_natCast (num den e : Nat) : scaled num den (-e) = (num * 2 ^ e, den) := by
  cases e with
  | zero => simp [scaled]
  | succ e =>
      have hneg : ¬ (-((e + 1 : Nat) : Int) ≥ 0) := by omega
      rw [scaled, if_neg hneg, Int.neg_neg, Int.toNat_natCast, Nat.shiftLeft_eq]

theorem toNatClamped_finite (limit m e : Nat) :
    (finite false m e).toNatClamped limit = min limit (m * 2 ^ e) := by
  have hhalf : (2 * (m * 2 ^ e) + 1) / (2 * 1) = m * 2 ^ e := by omega
  simp [toNatClamped, scaled_neg_natCast, hhalf]

/-! ## Numbers of more than 53 bits -/

section Large

variable {n : Nat} (h : mantissaLimit ≤ n)
include h

theorem ne_zero_of_large : n ≠ 0 := Nat.ne_of_gt (Nat.lt_of_lt_of_le (by decide) h)

theorem le_log2 : 53 ≤ n.log2 := (Nat.le_log2 (ne_zero_of_large h)).mpr h

/-- What is left of a long number after its last bits. -/
theorem le_div_pow {bits : Nat} (hbits : bits ≤ 53) : 2 ^ bits ≤ n / 2 ^ (n.log2 - bits) := by
  rw [Nat.le_div_iff_mul_le (Nat.two_pow_pos _), ← Nat.pow_add,
    Nat.add_sub_cancel' (Nat.le_trans hbits (le_log2 h))]
  exact Nat.log2_self_le (ne_zero_of_large h)

/-- The number of the format next to a long number. Rounding may lead to the next power of two. -/
theorem ofRatio_of_large :
    ofRatio false n 1 =
      let m := roundHalfEven n (2 ^ (n.log2 - 52))
      let (m, e) := if m = mantissaLimit then (mantissaLimit / 2, n.log2 - 51) else (m, n.log2 - 52)
      if (e : Int) > greatestExponent then infinite false else finite false m e := by
  have hlog := le_log2 h
  have hne : ¬ (n = 0 ∨ 1 = 0) := by simpa using ne_zero_of_large h
  have hguess : max ((n.log2 : Int) - (Nat.log2 1 : Nat) - (precision : Nat)) leastExponent =
      (n.log2 - 53 : Nat) := by
    simp only [precision, leastExponent, show Nat.log2 1 = 0 from rfl]
    omega
  have hguessed : ¬ n / 2 ^ (n.log2 - 53) < mantissaLimit :=
    Nat.not_lt_of_le (le_div_pow h (Nat.le_refl 53))
  have hnext : ((n.log2 - 53 : Nat) : Int) + 1 = (n.log2 - 52 : Nat) := by omega
  have hcarry : ((n.log2 - 52 : Nat) : Int) + 1 = (n.log2 - 51 : Nat) := by omega
  rw [ofRatio, if_neg hne]
  simp only [hguess, scaled_natCast, Nat.one_mul, if_neg hguessed, hnext, hcarry]
  split <;> rfl

/-- A long number comes back as a multiple of the distance between neighbours in the format. -/
theorem toNatClamped_ofRatio {limit : Nat} (hlimit : limit ≤ 2 ^ 64) :
    (ofRatio false n 1).toNatClamped limit =
      min limit (nearestMultiple (2 ^ (n.log2 - 52)) n) := by
  have hlog := le_log2 h
  rw [ofRatio_of_large h, nearestMultiple]
  have hleast : 2 ^ 52 ≤ roundHalfEven n (2 ^ (n.log2 - 52)) :=
    Nat.le_trans (le_div_pow h (by decide)) (div_le_roundHalfEven n _)
  generalize roundHalfEven n (2 ^ (n.log2 - 52)) = m at hleast
  obtain ⟨m', e, hpair, hvalue, hm'⟩ : ∃ m' e,
      (if m = mantissaLimit then (mantissaLimit / 2, n.log2 - 51) else (m, n.log2 - 52)) = (m', e) ∧
        m' * 2 ^ e = 2 ^ (n.log2 - 52) * m ∧ 2 ^ 52 ≤ m' := by
    split
    case isTrue hcarry =>
      have hexponent : n.log2 - 51 = n.log2 - 52 + 1 := by omega
      refine ⟨_, _, rfl, ?_, Nat.le_refl _⟩
      rw [hexponent, hcarry, Nat.pow_succ, mantissaLimit]
      omega
    case isFalse => exact ⟨_, _, rfl, Nat.mul_comm _ _, hleast⟩
  simp only [hpair, ← hvalue]
  split
  case isTrue hover =>
    have hexponent : 64 ≤ e := by
      simp only [greatestExponent] at hover
      omega
    have hbound : 2 ^ 64 ≤ m' * 2 ^ e :=
      Nat.le_trans (Nat.pow_le_pow_right (by decide) hexponent)
        (Nat.le_mul_of_pos_left _ (Nat.lt_of_lt_of_le (Nat.two_pow_pos 52) hm'))
    exact (Nat.min_eq_left (Nat.le_trans hlimit hbound)).symm
  case isFalse => exact toNatClamped_finite limit m' e

end Large

/-! ## Numbers read from decimal digits -/

/-- Only a number of more than 64 bits has digits beyond the powers of ten that are computed. -/
theorem le_of_length_toDigits {n : Nat} (h : 400 < (Nat.toDigits 10 n).length) : 2 ^ 64 ≤ n := by
  by_contra hlt
  have hlength := Nat.toDigits_length 10 n 20 (by decide) (by omega)
  omega

theorem le_nearestMultiple {n : Nat} (h : 2 ^ 64 ≤ n) : 2 ^ 64 ≤ nearestMultiple 2048 n := by
  have hleast := div_le_roundHalfEven n 2048
  rw [nearestMultiple]
  omega

/-- A number of 64 bits or more comes back as the nearest multiple of 2048, within the bound. -/
theorem toNatClamped_ofDecimal {n limit : Nat} (h : 2 ^ 63 ≤ n) (hlimit : limit < 2 ^ 64) :
    (ofDecimal false n 0).toNatClamped limit = min limit (nearestMultiple 2048 n) := by
  have hlarge : mantissaLimit ≤ n := Nat.le_trans (by decide) h
  have hdigits : ¬ (n = 0 ∨ (0 : Int) + (Nat.toDigits 10 n).length < -400) := by omega
  rw [ofDecimal, if_neg hdigits]
  split
  case isTrue hmany =>
    have hlength : 400 < (Nat.toDigits 10 n).length := by omega
    have hbits := le_nearestMultiple (le_of_length_toDigits hlength)
    exact (Nat.min_eq_left (Nat.le_trans (Nat.le_of_lt hlimit) hbits)).symm
  case isFalse =>
    have hone : n * Nat.pow 10 (Int.toNat 0) = n := Nat.mul_one n
    rw [if_pos (Int.le_refl 0), hone, toNatClamped_ofRatio hlarge (Nat.le_of_lt hlimit)]
    by_cases hbits : n < 2 ^ 64
    · have hlog : n.log2 = 63 := (Nat.log2_eq_iff (by omega)).mpr ⟨h, hbits⟩
      rw [hlog, show 2 ^ (63 - 52) = 2048 from rfl]
    · have hbits : 2 ^ 64 ≤ n := Nat.le_of_not_lt hbits
      have hlog : 64 ≤ n.log2 := (Nat.le_log2 (ne_zero_of_large hlarge)).mpr hbits
      have hproduct : 2 ^ 64 ≤ nearestMultiple (2 ^ (n.log2 - 52)) n :=
        calc 2 ^ 64 = 2 ^ 12 * 2 ^ 52 := by decide
          _ ≤ 2 ^ (n.log2 - 52) * roundHalfEven n (2 ^ (n.log2 - 52)) :=
            Nat.mul_le_mul (Nat.pow_le_pow_right (by decide) (by omega))
              (Nat.le_trans (le_div_pow hlarge (by decide)) (div_le_roundHalfEven n _))
      have hmultiple := le_nearestMultiple hbits
      omega

end NetPool.Binary64
