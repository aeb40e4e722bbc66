import Mathlib.Tactic.SplitIfs
import NetPool.Proofs.Json.Reader

/-! # Longer texts

Whatever is read from the front of a text is read in the same way if more text follows. A string
tells its own end. A number, or a value that is skipped, may go on where the text ended, so there
something must have been left. -/

namespace NetPool.Json

open Numeral

theorem Result.map_eq_ok {α β : Type} {f : α → β} {r : Result α} {b : β} {rest : List Char} :
    r.map f = .ok (b, rest) ↔ ∃ a, r = .ok (a, rest) ∧ f a = b := by
  rcases r with e | ⟨a, rest'⟩
  · simp [Result.map]
  · simp only [Result.map, Except.ok.injEq, Prod.mk.injEq]
    constructor
    · rintro ⟨hb, rfl⟩
      exact ⟨a, ⟨rfl, rfl⟩, hb⟩
    · rintro ⟨a', ⟨rfl, rfl⟩, hb⟩
      exact ⟨hb, rfl⟩

/-- A value does not depend on the text that is left with it. -/
theorem map_rest_append {α : Type} {x : Except Fault α} {a : α} {cs rest : List Char}
    (h : x.map (·, cs) = .ok (a, rest)) (ext : List Char) :
    cs = rest ∧ x.map (·, cs ++ ext) = .ok (a, rest ++ ext) := by
  cases x with
  | error e => cases h
  | ok b =>
      cases h
      exact ⟨rfl, rfl⟩

/-! ## Gaps, words and strings -/

theorem skipGap_append {cs : List Char} (h : skipGap cs ≠ []) (ext : List Char) :
    skipGap (cs ++ ext) = skipGap cs ++ ext := by
  rw [skipGap] at h
  rw [skipGap, List.dropWhile_append, if_neg (by simpa using h), skipGap]

theorem skipGap_append_cons {c : Char} {cs rest : List Char} (h : skipGap cs = c :: rest)
    (ext : List Char) : skipGap (cs ++ ext) = c :: (rest ++ ext) := by
  have hne : skipGap cs ≠ [] := by
    rw [h]
    exact List.cons_ne_nil c rest
  rw [skipGap_append hne, h, List.cons_append]

theorem readWord_append {due cs rest : List Char} (h : readWord due cs = .ok rest)
    (ext : List Char) : readWord due (cs ++ ext) = .ok (rest ++ ext) := by
  induction due generalizing cs with
  | nil =>
      cases h
      rfl
  | cons d due ih =>
      cases cs with
      | nil => cases h
      | cons c cs =>
          rw [List.cons_append]
          rw [readWord] at h ⊢
          split_ifs at h ⊢
          exact ih h

theorem fourBytesLeft_append {cs : List Char} (h : fourBytesLeft cs = true) (ext : List Char) :
    fourBytesLeft (cs ++ ext) = true := by
  simp only [fourBytesLeft, decide_eq_true_iff] at h ⊢
  rw [List.take_append, String.ofList_append, String.utf8ByteSize_append]
  omega

theorem readText_append {st : TextState} {cs s rest : List Char}
    (h : readText st cs = .ok (s, rest)) (ext : List Char) :
    readText st (cs ++ ext) = .ok (s, rest ++ ext) := by
  induction cs generalizing st s with
  | nil => cases h
  | cons c cs ih =>
      -- Whatever follows a character is read in the same way by induction.
      have hmap : ∀ {st d}, (readText st cs).map (d :: ·) = .ok (s, rest) →
          (readText st (cs ++ ext)).map (d :: ·) = .ok (s, rest ++ ext) := by
        intro st d hread
        obtain ⟨s', hs', rfl⟩ := Result.map_eq_ok.mp hread
        rw [ih hs', Result.map_ok]
      rw [List.cons_append]
      cases st with
      | plain =>
          rw [readText] at h ⊢
          split_ifs at h ⊢
          · cases h
            rfl
          · exact ih h
          · exact hmap h
      | escape =>
          rw [readText] at h ⊢
          cases hletter : letterEscape? c with
          | some d =>
              rw [hletter] at h
              exact hmap h
          | none =>
              rw [hletter] at h
              simp only at h ⊢
              split_ifs at h with hu hfour
              rw [if_pos hu, if_pos (fourBytesLeft_append hfour ext)]
              exact ih h
      | digits due value high =>
          rw [readText] at h ⊢
          split_ifs at h ⊢ with hdigit hdue
          · dsimp only at h ⊢
            exact ih h
          · dsimp only at h ⊢
            split at h
            · exact hmap h
            · exact ih h
            · cases h
      | high half =>
          rw [readText] at h ⊢
          split_ifs at h ⊢
          exact ih h
      | highEscape half =>
          rw [readText] at h ⊢
          split_ifs at h with hu hfour
          rw [if_pos hu, if_pos (fourBytesLeft_append hfour ext)]
          exact ih h

/-! ## Numbers -/

theorem digitRun_append {cs : List Char} (h : (digitRun cs).2 ≠ []) (ext : List Char) :
    digitRun (cs ++ ext) = ((digitRun cs).1, (digitRun cs).2 ++ ext) := by
  rw [digitRun] at h
  have hlength : (cs.takeWhile (isDigit 10)).length ≠ cs.length := by
    intro hall
    have hsplit := congrArg List.length (List.takeWhile_append_dropWhile (p := isDigit 10) (l := cs))
    rw [List.length_append, hall, Nat.add_eq_left] at hsplit
    exact h (List.eq_nil_of_length_eq_zero hsplit)
  rw [digitRun, List.takeWhile_append, if_neg hlength, List.dropWhile_append, if_neg (by simpa using h)]
  rfl

/-- The number that the digits of an exponent give. -/
def exponentValue (negative : Bool) (significand : Nat) (start : Int) (down : Bool)
    (digits : List Char) : Except Fault Number :=
  match gather exponentLimit 0 digits with
  | (e, []) => floatOf negative significand (if down then start - e else start + e)
  | _ =>
    if significand ≠ 0 ∧ !down then .error .numberOutOfRange
    else .ok (.float (.finite negative 0 Binary64.leastExponent))

/-- Reads the digits of an exponent, after its sign. -/
def readExponentDigits (negative : Bool) (significand : Nat) (start : Int) (down : Bool)
    (cs : List Char) : Result Number :=
  if cs.isEmpty then .error .endOfValue
  else if (digitRun cs).1.isEmpty then .error .badNumber
  else (exponentValue negative significand start down (digitRun cs).1).map (·, (digitRun cs).2)

section Numbers

variable {negative : Bool} {significand : Nat} {start : Int} {cs rest : List Char} {n : Number}

theorem map_exponentValue (down : Bool) (digits rest : List Char) :
    (exponentValue negative significand start down digits).map (·, rest) =
      match gather exponentLimit 0 digits with
      | (e, []) =>
        (floatOf negative significand (if down then start - e else start + e)).map (·, rest)
      | _ =>
        if significand ≠ 0 ∧ !down then .error .numberOutOfRange
        else .ok (.float (.finite negative 0 Binary64.leastExponent), rest) := by
  rw [exponentValue]
  split
  · rfl
  · split_ifs
    · rfl
    · rfl

theorem readExponent_plus (cs : List Char) : readExponent negative significand start ('+' :: cs) =
    readExponentDigits negative significand start false cs := by
  simp only [readExponentDigits, map_exponentValue]
  rfl

theorem readExponent_minus (cs : List Char) : readExponent negative significand start ('-' :: cs) =
    readExponentDigits negative significand start true cs := by
  simp only [readExponentDigits, map_exponentValue]
  rfl

theorem readExponent_unsigned {c : Char} (hplus : c ≠ '+') (hminus : c ≠ '-') (cs : List Char) :
    readExponent negative significand start (c :: cs) =
      readExponentDigits negative significand start false (c :: cs) := by
  have hplus' : ∀ rest, c :: cs = '+' :: rest → False := fun _ hcons => hplus (List.cons.inj hcons).1
  have hminus' : ∀ rest, c :: cs = '-' :: rest → False :=
    fun _ hcons => hminus (List.cons.inj hcons).1
  simp only [readExponentDigits, map_exponentValue]
  exact (readExponent.eq_3 negative significand start (c :: cs) hplus' hminus').trans rfl

theorem readExponentDigits_append {down : Bool}
    (h : readExponentDigits negative significand start down cs = .ok (n, rest)) (hrest : rest ≠ [])
    (ext : List Char) :
    readExponentDigits negative significand start down (cs ++ ext) = .ok (n, rest ++ ext) := by
  rw [readExponentDigits] at h ⊢
  split_ifs at h with hcs hdigits
  have happend : ¬ (cs ++ ext).isEmpty = true := by simp [mt List.isEmpty_iff.mpr hcs]
  obtain ⟨hleft, hmore⟩ := map_rest_append h ext
  rw [digitRun_append (hleft ▸ hrest), if_neg happend, if_neg hdigits, hmore]

theorem readExponent_append
    (h : readExponent negative significand start cs = .ok (n, rest)) (hrest : rest ≠ [])
    (ext : List Char) :
    readExponent negative significand start (cs ++ ext) = .ok (n, rest ++ ext) := by
  cases cs with
  | nil => cases h
  | cons c cs =>
      rw [List.cons_append]
      by_cases hplus : c = '+'
      · rw [hplus, readExponent_plus] at h ⊢
        exact readExponentDigits_append h hrest ext
      by_cases hminus : c = '-'
      · rw [hminus, readExponent_minus] at h ⊢
        exact readExponentDigits_append h hrest ext
      rw [readExponent_unsigned hplus hminus] at h ⊢
      exact readExponentDigits_append h hrest ext

theorem readFloatEnd_append (h : readFloatEnd negative significand start cs = .ok (n, rest))
    (hrest : rest ≠ []) (ext : List Char) :
    readFloatEnd negative significand start (cs ++ ext) = .ok (n, rest ++ ext) := by
  cases cs with
  | nil => exact absurd (map_rest_append h []).1.symm hrest
  | cons c cs =>
      rw [List.cons_append]
      by_cases hsmall : c = 'e'
      · rw [hsmall] at h ⊢
        exact readExponent_append h hrest ext
      by_cases hlarge : c = 'E'
      · rw [hlarge] at h ⊢
        exact readExponent_append h hrest ext
      have hplain : ∀ cs, readFloatEnd negative significand start (c :: cs) =
          (floatOf negative significand start).map (·, c :: cs) := by
        intro cs
        simp [readFloatEnd, hsmall, hlarge]
      rw [hplain] at h ⊢
      exact (map_rest_append h ext).2

theorem readFraction_append (h : readFraction negative significand start cs = .ok (n, rest))
    (hrest : rest ≠ []) (ext : List Char) :
    readFraction negative significand start (cs ++ ext) = .ok (n, rest ++ ext) := by
  unfold readFraction at h ⊢
  dsimp only at h ⊢
  split_ifs at h with hdigits
  have hleft : (digitRun cs).2 ≠ [] := by
    intro hnil
    rw [hnil] at h
    exact hrest (map_rest_append h []).1.symm
  rw [digitRun_append hleft, if_neg hdigits]
  exact readFloatEnd_append h hrest ext

theorem readNumberEnd_nil {digits : List Char} (h : readNumberEnd negative digits [] = .ok (n, rest)) :
    rest = [] := by
  unfold readNumberEnd at h
  dsimp only at h
  split_ifs at h
  · cases h
    rfl
  · exact (map_rest_append h []).1.symm

theorem readNumberEnd_append {digits : List Char}
    (h : readNumberEnd negative digits cs = .ok (n, rest)) (hrest : rest ≠ []) (ext : List Char) :
    readNumberEnd negative digits (cs ++ ext) = .ok (n, rest ++ ext) := by
  cases cs with
  | nil => exact absurd (readNumberEnd_nil h) hrest
  | cons c cs =>
      rw [List.cons_append]
      by_cases hpoint : c = '.'
      · rw [hpoint] at h ⊢
        exact readFraction_append h hrest ext
      by_cases hsmall : c = 'e'
      · rw [hsmall] at h ⊢
        exact readExponent_append h hrest ext
      by_cases hlarge : c = 'E'
      · rw [hlarge] at h ⊢
        exact readExponent_append h hrest ext
      have hplain : ∀ cs, readNumberEnd negative digits (c :: cs) =
          if (gather wholeLimit 0 digits).2.isEmpty then
            .ok (wholeNumber negative (gather wholeLimit 0 digits).1, c :: cs)
          else (floatOf negative (gather wholeLimit 0 digits).1
            (gather wholeLimit 0 digits).2.length).map (·, c :: cs) := by
        intro cs
        simp [readNumberEnd, hpoint, hsmall, hlarge]
      rw [hplain] at h ⊢
      split_ifs at h ⊢
      · cases h
        rfl
      · exact (map_rest_append h ext).2

theorem readUnsigned_append (h : readUnsigned negative cs = .ok (n, rest)) (hrest : rest ≠ [])
    (ext : List Char) : readUnsigned negative (cs ++ ext) = .ok (n, rest ++ ext) := by
  unfold readUnsigned at h ⊢
  dsimp only at h ⊢
  split_ifs at h with hcs hdigits
  have hleft : (digitRun cs).2 ≠ [] := by
    intro hnil
    rw [hnil] at h
    exact hrest (readNumberEnd_nil h)
  have happend : ¬ (cs ++ ext).isEmpty = true := by simp [mt List.isEmpty_iff.mpr hcs]
  rw [digitRun_append hleft, if_neg happend, if_neg hdigits]
  exact readNumberEnd_append h hrest ext

theorem readNumber_append (h : readNumber cs = .ok (n, rest)) (hrest : rest ≠ [])
    (ext : List Char) : readNumber (cs ++ ext) = .ok (n, rest ++ ext) := by
  cases cs with
  | nil => cases h
  | cons c cs =>
      rw [List.cons_append]
      by_cases hminus : c = '-'
      · rw [hminus] at h ⊢
        exact readUnsigned_append h hrest ext
      have hplain : ∀ cs, readNumber (c :: cs) = readUnsigned false (c :: cs) := by
        intro cs
        simp [readNumber, hminus]
      rw [hplain] at h ⊢
      exact readUnsigned_append h hrest ext

end Numbers

/-! ## Skipped values -/

/-- Whether a character is a fault may depend on what follows, but only on whether there is
enough. -/
theorem skipStep_append {st : SkipState} {stack : List Frame} {c : Char} {cs : List Char}
    (h : ∀ e, skipStep st stack c cs ≠ .fault e) (ext : List Char) :
    skipStep st stack c (cs ++ ext) = skipStep st stack c cs := by
  cases st with
  | textEscape isKey =>
      rw [skipStep] at h ⊢
      rw [skipStep]
      split_ifs at h ⊢ with hletter hu hmore hfour hfour
      · rfl
      · rfl
      · exact absurd rfl (h .endOfText)
      · exact absurd (fourBytesLeft_append hfour ext) hmore
      · rfl
      · rfl
  | _ => rfl

theorem skipFrom_append {st : SkipState} {stack : List Frame} {cs rest : List Char}
    (h : skipFrom st stack cs = .ok rest) (hrest : rest ≠ []) (ext : List Char) :
    skipFrom st stack (cs ++ ext) = .ok (rest ++ ext) := by
  induction cs generalizing st stack with
  | nil =>
      rw [skipFrom] at h
      split at h
      · cases h
      · exact absurd (Except.ok.inj h).symm hrest
  | cons c cs ih =>
      rw [List.cons_append]
      rw [skipFrom] at h ⊢
      have hstep : ∀ e, skipStep st stack c cs ≠ .fault e := by
        intro e he
        rw [he] at h
        cases h
      rw [skipStep_append hstep]
      split at h
      · exact ih h
      · cases h
        rfl
      · cases h
        rfl
      · cases h

end NetPool.Json
