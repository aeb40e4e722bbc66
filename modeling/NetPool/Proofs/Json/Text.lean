import NetPool.Json.Text
import NetPool.Proofs.Text.Numeral

/-! # Written JSON strings

A written string is read back character by character. Every character that may not stand for
itself has an escape, and the escapes that are written are read as that character. -/

namespace NetPool.Json

open Numeral

@[simp] theorem Result.map_ok {α β : Type} (f : α → β) (a : α) (rest : List Char) :
    Result.map f (.ok (a, rest)) = .ok (f a, rest) := rfl

/-! ## Control characters -/

/-- A control character is written with four digits, the first two of them zeros. -/
theorem padded_hex {n : Nat} (hn : n < 32) :
    padded 4 (hex n) =
      [(0).digitChar, (0).digitChar, (n / 16).digitChar, (n % 16).digitChar] := by
  have hall : ∀ n < 32, padded 4 (hex n) =
      [(0).digitChar, (0).digitChar, (n / 16).digitChar, (n % 16).digitChar] := by decide
  exact hall n hn

theorem fourBytesLeft_padded_hex {n : Nat} (hn : n < 32) (rest : List Char) :
    fourBytesLeft (padded 4 (hex n) ++ rest) = true := by
  have hall : ∀ n < 32, fourBytesLeft (padded 4 (hex n)) = true := by decide
  have hlength : (padded 4 (hex n)).length = 4 := by simp [padded_hex hn]
  have htake : (padded 4 (hex n) ++ rest).take 4 = (padded 4 (hex n)).take 4 := by
    rw [List.take_append_of_le_length (by omega)]
  have h := hall n hn
  unfold fourBytesLeft at h ⊢
  rwa [htake]

theorem readText_digit {d due value : Nat} (hd : d < 16) (hdue : 1 < due) (high : Option Nat)
    (rest : List Char) :
    readText (.digits due value high) (d.digitChar :: rest) =
      readText (.digits (due - 1) (value * 16 + d) high) rest := by
  rw [readText]
  simp [isDigit_digitChar hd, digitValue?_digitChar hd, hdue]

theorem readText_lastDigit {d value : Nat} (hd : d < 16) {c : Char} {high : Option Nat}
    (hc : Unit16.of (value * 16 + d) high = .char c) (rest : List Char) :
    readText (.digits 1 value high) (d.digitChar :: rest) =
      (readText .plain rest).map (c :: ·) := by
  rw [readText]
  simp [isDigit_digitChar hd, digitValue?_digitChar hd, hc]

/-- The digits of a control character are read as that character. -/
theorem readText_padded_hex {c : Char} (hc : c.toNat < 32) (rest : List Char) :
    readText (.digits 4 0 none) (padded 4 (hex c.toNat) ++ rest) =
      (readText .plain rest).map (c :: ·) := by
  have hhigh : c.toNat / 16 < 16 := by omega
  have hlow : c.toNat % 16 < 16 := Nat.mod_lt _ (by decide)
  have hunit : Unit16.of ((((0 * 16 + 0) * 16 + 0) * 16 + c.toNat / 16) * 16 + c.toNat % 16) none =
      .char c := by
    have hsum : (((0 * 16 + 0) * 16 + 0) * 16 + c.toNat / 16) * 16 + c.toNat % 16 = c.toNat := by
      omega
    have hlone : ¬ (0xdc00 ≤ c.toNat ∧ c.toNat ≤ 0xdfff) := by omega
    have hhalf : ¬ (0xd800 ≤ c.toNat ∧ c.toNat ≤ 0xdbff) := by omega
    rw [hsum, Unit16.of, if_neg hlone, if_neg hhalf, Char.ofNat_toNat]
  rw [padded_hex hc]
  simp only [List.cons_append, List.nil_append]
  rw [readText_digit (by decide) (by decide), readText_digit (by decide) (by decide),
    readText_digit hhigh (by decide)]
  exact readText_lastDigit hlow hunit rest

/-! ## Strings -/

theorem readText_letter {c d : Char} (h : letterEscape? c = some d) (rest : List Char) :
    readText .plain ('\\' :: c :: rest) = (readText .plain rest).map (d :: ·) := by
  rw [readText, if_neg (by decide), if_pos rfl, readText, h]

/-- A written character is read back. -/
theorem readText_writtenChar (c : Char) (rest : List Char) :
    readText .plain (writtenChar c ++ rest) = (readText .plain rest).map (c :: ·) := by
  unfold writtenChar escape?
  split
  · rename_i h
    subst h
    exact readText_letter (by decide) rest
  split
  · rename_i h
    subst h
    exact readText_letter (by decide) rest
  split
  · rename_i h
    subst h
    exact readText_letter (by decide) rest
  split
  · rename_i h
    subst h
    exact readText_letter (by decide) rest
  split
  · rename_i h
    subst h
    exact readText_letter (by decide) rest
  split
  · rename_i h
    subst h
    exact readText_letter (by decide) rest
  split
  · rename_i h
    subst h
    exact readText_letter (by decide) rest
  split
  · rename_i hcontrol
    rw [Option.getD_some, List.append_assoc]
    simp only [List.cons_append, List.nil_append]
    rw [readText, if_neg (by decide), if_pos rfl, readText]
    simp only [show letterEscape? 'u' = none by decide, fourBytesLeft_padded_hex hcontrol, if_true]
    exact readText_padded_hex hcontrol rest
  · rename_i hquote hbackslash _ _ _ _ _ hcontrol
    simp only [Option.getD_none, List.cons_append, List.nil_append]
    rw [readText, if_neg hquote, if_neg hbackslash, if_neg hcontrol]

/-- A written string is read back up to its closing quote. -/
theorem readText_flatMap_writtenChar (s rest : List Char) :
    readText .plain (s.flatMap writtenChar ++ '"' :: rest) = .ok (s, rest) := by
  induction s with
  | nil => simp [readText]
  | cons c s ih =>
      rw [List.flatMap_cons, List.append_assoc, readText_writtenChar, ih]
      rfl

theorem writeText_append (s rest : List Char) :
    writeText s ++ rest = '"' :: (s.flatMap writtenChar ++ '"' :: rest) := by
  simp [writeText]

end NetPool.Json
