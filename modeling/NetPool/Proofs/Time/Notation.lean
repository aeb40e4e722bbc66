import NetPool.Proofs.Text.Numeral
import NetPool.Time.Notation

/-! # Written instants

Reading the text of an instant gives back that instant, whatever its year, its fraction of a
second and whether or not it is a leap second. -/

namespace NetPool.Instant.Notation

open Numeral Text

/-- The reader takes `a` from the front of the text and leaves `rest`. -/
def Reads {α : Type} (r : PartReader α) (cs : List Char) (a : α) (rest : List Char) : Prop :=
  r cs = .ok (a, rest)

section Readers

variable {α β : Type} {cs rest final : List Char}

theorem Reads.bind {r : PartReader α} {f : α → PartReader β} {a : α} {b : β}
    (h₁ : Reads r cs a rest) (h₂ : Reads (f a) rest b final) : Reads (r >>= f) cs b final := by
  change Except.bind (r cs) _ = _
  rw [h₁]
  exact h₂

theorem Reads.pure (a : α) : Reads (Pure.pure a) cs a cs := rfl

theorem reads_get : Reads (get : PartReader (List Char)) cs cs cs := rfl

theorem reads_set (new : List Char) : Reads (set new : PartReader PUnit) cs ⟨⟩ new := rfl

theorem reads_modify (f : List Char → List Char) :
    Reads (modify f : PartReader PUnit) cs ⟨⟩ (f cs) := rfl

theorem reads_blanks (h : EndsRun isBlank cs) : Reads blanks cs () cs := by
  simp [Reads, blanks, trimStart, dropWhile_of_endsRun h]

/-! ## Numbers -/

theorem not_isBlank_of_isDigit {c : Char} (h : isDigit 10 c = true) : isBlank c = false := by
  have hrange : 48 ≤ c.toNat ∧ c.toNat ≤ 57 := by
    unfold isDigit digitValue? at h
    split at h
    · rename_i d hd
      split at hd
      · rename_i hc
        exact ⟨UInt32.le_iff_toNat_le.mp hc.1, UInt32.le_iff_toNat_le.mp hc.2⟩
      · split at hd
        · obtain rfl := Option.some.inj hd
          simp only [decide_eq_true_eq] at h
          omega
        · split at hd
          · obtain rfl := Option.some.inj hd
            simp only [decide_eq_true_eq] at h
            omega
          · cases hd
    · cases h
  simp only [isBlank, Bool.or_eq_false_iff, Bool.and_eq_false_iff, decide_eq_false_iff_not]
  omega

theorem isDigit_of_mem_paddedDecimal {width n : Nat} {c : Char}
    (hc : c ∈ padded width (decimal n)) : isDigit 10 c = true :=
  isDigit_of_mem_padded (by decide) (by decide) hc

/-- A written number starts with a digit. -/
theorem padded_append_ne_cons {width n : Nat} {c : Char} {tail : List Char}
    (hc : isDigit 10 c = false) : padded width (decimal n) ++ rest ≠ c :: tail := by
  intro heq
  cases hcs : padded width (decimal n) with
  | nil => exact padded_ne_nil hcs
  | cons d ds =>
      have hd : isDigit 10 d = true := isDigit_of_mem_paddedDecimal (hcs ▸ List.mem_cons_self)
      obtain rfl : d = c := (List.cons.inj (hcs ▸ heq)).1
      rw [hc] at hd
      cases hd

theorem endsRun_isBlank_padded (width n : Nat) (rest : List Char) :
    EndsRun isBlank (padded width (decimal n) ++ rest) := by
  cases hcs : padded width (decimal n) with
  | nil => exact absurd hcs padded_ne_nil
  | cons c cs =>
      have hc : c ∈ padded width (decimal n) := hcs ▸ List.mem_cons_self
      exact endsRun_cons (not_isBlank_of_isDigit (isDigit_of_mem_paddedDecimal hc))

/-- A number of some width is read back by a reader of at least as many places, if no digit
follows within these. -/
theorem reads_number_some {places width n : Nat} (hlength : (decimal n).length ≤ width)
    (hwidth : width ≤ places) (hrest : EndsRun (isDigit 10) (rest.take (places - width)))
    (hn : n ≤ numberLimit) :
    Reads (number (some places)) (padded width (decimal n) ++ rest) n rest := by
  have hpadded : (padded width (decimal n)).length = width := length_padded hlength
  have htake : (padded width (decimal n) ++ rest).take places =
      padded width (decimal n) ++ rest.take (places - width) := by
    rw [List.take_append, hpadded, List.take_of_length_le (by omega)]
  have hdigits : (padded width (decimal n) ++ rest.take (places - width)).takeWhile (isDigit 10) =
      padded width (decimal n) :=
    takeWhile_append_of_endsRun (fun c hc => isDigit_of_mem_paddedDecimal hc) hrest
  have hvalue : value 10 (padded width (decimal n)) = n := value_padded (by decide) (by decide) _ _
  have hne : padded width (decimal n) ≠ [] := padded_ne_nil
  simp [Reads, number, htake, hdigits, hvalue, hne, Nat.not_lt.mpr hn]

/-- A number of any length is read back if no digit follows it. -/
theorem reads_number_none {width n : Nat} (hn : n ≤ numberLimit)
    (hrest : EndsRun (isDigit 10) rest) :
    Reads (number none) (padded width (decimal n) ++ rest) n rest := by
  have hdigits : (padded width (decimal n) ++ rest).takeWhile (isDigit 10) =
      padded width (decimal n) :=
    takeWhile_append_of_endsRun (fun c hc => isDigit_of_mem_paddedDecimal hc) hrest
  have hvalue : value 10 (padded width (decimal n)) = n := value_padded (by decide) (by decide) _ _
  have hne : padded width (decimal n) ≠ [] := padded_ne_nil
  simp [Reads, number, hdigits, hvalue, hne, Nat.not_lt.mpr hn]

theorem reads_two {low high n : Nat} (hlow : low ≤ n) (hhigh : n ≤ high) (hn : n < 100) :
    Reads (bounded low high) (two n ++ rest) n rest := by
  have hlength : (decimal n).length ≤ 2 :=
    (Nat.length_toDigits_le_iff (by decide) (by decide)).mpr hn
  have hlimit : n ≤ numberLimit := Nat.le_trans (Nat.le_of_lt hn) (by decide)
  refine (reads_blanks (endsRun_isBlank_padded 2 n rest)).bind ?_
  refine (reads_number_some hlength (Nat.le_refl 2) (by simp [endsRun_nil]) hlimit).bind ?_
  rw [if_pos ⟨hlow, hhigh⟩]
  exact Reads.pure n

theorem reads_separator {c : Char} (hc : isBlank c = false) :
    Reads (separator c) (c :: rest) () rest := by
  simp [Reads, separator, trimStart, hc]

/-! ## Years and fractions -/

theorem reads_year {y : Int} (hlow : Date.firstYear ≤ y) (hhigh : y ≤ Date.lastYear)
    (hrest : EndsRun (isDigit 10) rest) : Reads year (yearDigits y ++ rest) y rest := by
  have hlow' : -262143 ≤ y := hlow
  have hhigh' : y ≤ 262142 := hhigh
  have hbound : -yearBound ≤ y ∧ y < yearBound := by
    simp only [yearBound]
    omega
  have hlimit : y.natAbs ≤ numberLimit := by
    simp only [numberLimit]
    omega
  have hfinish : Reads (if -yearBound ≤ y ∧ y < yearBound then Pure.pure y else throw .outOfRange)
      rest y rest := by
    rw [if_pos hbound]
    exact Reads.pure y
  unfold year
  by_cases hneg : y < 0
  · have htext : yearDigits y ++ rest = '-' :: (padded 4 (decimal y.natAbs) ++ rest) := by
      simp [yearDigits, hneg]
    have habs : -((y.natAbs : Nat) : Int) = y := by omega
    rw [htext]
    refine (reads_blanks (endsRun_cons (by decide))).bind (reads_get.bind ?_)
    refine (reads_set _).bind ((reads_number_none hlimit hrest).bind ((Reads.pure _).bind ?_))
    rwa [habs]
  · have habs : ((y.natAbs : Nat) : Int) = y := by omega
    by_cases hlarge : y > 9999
    · have htext : yearDigits y ++ rest = '+' :: (padded 4 (decimal y.natAbs) ++ rest) := by
        simp [yearDigits, hneg, hlarge]
      rw [htext]
      refine (reads_blanks (endsRun_cons (by decide))).bind (reads_get.bind ?_)
      refine (reads_set _).bind ((reads_number_none hlimit hrest).bind ((Reads.pure _).bind ?_))
      rwa [habs]
    · have htext : yearDigits y ++ rest = padded 4 (decimal y.natAbs) ++ rest := by
        simp [yearDigits, hneg, hlarge]
      have hlength : (decimal y.natAbs).length ≤ 4 :=
        (Nat.length_toDigits_le_iff (by decide) (by decide)).mpr (by omega)
      rw [htext]
      refine (reads_blanks (endsRun_isBlank_padded 4 _ rest)).bind (reads_get.bind ?_)
      -- a digit in front is neither of the signs
      split
      · rename_i hsign
        exact absurd hsign (padded_append_ne_cons (by decide))
      · rename_i hsign
        exact absurd hsign (padded_append_ne_cons (by decide))
      · refine (reads_number_some hlength (Nat.le_refl 4) (by simp [endsRun_nil]) hlimit).bind
          ((Reads.pure _).bind ?_)
        rwa [habs]

/-- A fraction of `width` places, followed by the mark of universal time. -/
theorem reads_fraction_padded {width n : Nat} (hwidth : width ≤ 9)
    (hlength : (decimal n).length ≤ width) (hn : n ≤ numberLimit) :
    Reads fraction ('.' :: (padded width (decimal n) ++ ['Z'])) (n * Nat.pow 10 (9 - width))
      ['Z'] := by
  have hmark : EndsRun (isDigit 10) ['Z'] := endsRun_cons (by decide)
  have hfront : EndsRun (isDigit 10) (['Z'].take (9 - width)) := by
    cases 9 - width with
    | zero => exact endsRun_nil _
    | succ k => exact hmark
  have hall : ∀ c ∈ padded width (decimal n), isDigit 10 c = true :=
    fun c hc => isDigit_of_mem_paddedDecimal hc
  have htake : ((padded width (decimal n) ++ ['Z']).takeWhile (isDigit 10)).length = width := by
    rw [takeWhile_append_of_endsRun hall hmark, length_padded hlength]
  have hdrop : (padded width (decimal n) ++ ['Z']).dropWhile (isDigit 10) = ['Z'] :=
    dropWhile_append_of_endsRun hall hmark
  unfold fraction
  refine reads_get.bind ((reads_set _).bind ?_)
  refine (reads_number_some hlength hwidth hfront hn).bind ?_
  refine (reads_modify _).bind ?_
  rw [htake, Nat.min_eq_right hwidth]
  exact Reads.pure _

/-- A fraction of a second is read back in nanoseconds. -/
theorem reads_fraction {nano : Nat} (hnano : nano < 1000000000) :
    Reads fraction (fractionDigits nano ++ ['Z']) nano ['Z'] := by
  have hlength : ∀ {k n : Nat}, 0 < k → n < Nat.pow 10 k → (decimal n).length ≤ k :=
    fun hk hn => (Nat.length_toDigits_le_iff (by decide) hk).mpr hn
  have hlimit : ∀ {n : Nat}, n < 1000000000 → n ≤ numberLimit :=
    fun hn => Nat.le_trans (Nat.le_of_lt hn) (by decide)
  unfold fractionDigits
  split
  · rename_i hzero
    rw [hzero]
    exact reads_get.bind (Reads.pure 0)
  · split
    · have hn : nano / 1000000 < Nat.pow 10 3 := by
        show nano / 1000000 < 1000
        omega
      have hvalue : nano / 1000000 * Nat.pow 10 (9 - 3) = nano := by
        show nano / 1000000 * 1000000 = nano
        omega
      have h := reads_fraction_padded (by decide) (hlength (by decide) hn) (hlimit (by omega))
      rwa [hvalue] at h
    · split
      · have hn : nano / 1000 < Nat.pow 10 6 := by
          show nano / 1000 < 1000000
          omega
        have hvalue : nano / 1000 * Nat.pow 10 (9 - 6) = nano := by
          show nano / 1000 * 1000 = nano
          omega
        have h := reads_fraction_padded (by decide) (hlength (by decide) hn) (hlimit (by omega))
        rwa [hvalue] at h
      · have hn : nano < Nat.pow 10 9 := hnano
        have h := reads_fraction_padded (by decide) (hlength (by decide) hn) (hlimit hnano)
        simpa using h

theorem reads_timeMark : Reads timeMark ('T' :: rest) () rest := by simp [Reads, timeMark]

/-- The mark of universal time is an offset of nothing. -/
theorem reads_offset : Reads offset ['Z'] 0 [] := by
  unfold offset
  refine (reads_blanks (endsRun_cons (by decide))).bind (reads_get.bind ?_)
  rw [if_neg (by decide)]
  exact (reads_set _).bind (Reads.pure _)

end Readers

/-! ## Whole instants -/

theorem bounds_of_isValid {d : Date} (h : d.isValid = true) :
    Date.firstYear ≤ d.year ∧ d.year ≤ Date.lastYear ∧ 1 ≤ d.month ∧ d.month ≤ 12 ∧ 1 ≤ d.day ∧
      d.day ≤ 31 := by
  simp only [Date.isValid, Bool.and_eq_true, decide_eq_true_eq] at h
  obtain ⟨⟨⟨⟨⟨hfirst, hlast⟩, hmonth⟩, hmonth'⟩, hday⟩, hday'⟩ := h
  have hdays : daysInMonth d.year d.month ≤ 31 := by
    unfold daysInMonth
    repeat' split
    all_goals omega
  exact ⟨hfirst, hlast, hmonth, hmonth', hday, Nat.le_trans hday' hdays⟩

/-- The parts of a written instant are read in order. -/
theorem reads_parts (t : Instant) :
    Reads parts (write t) ⟨t.date, t.hour, t.minuteOfHour, t.second, t.nano, 0⟩ [] := by
  obtain ⟨hfirst, hlast, hmonth, hmonth', hday, hday'⟩ := bounds_of_isValid t.date_valid
  have hminute := t.minute_lt
  have hsecond := t.second_le
  have hhour : t.hour ≤ 23 := by
    unfold hour
    omega
  have hminute' : t.minuteOfHour ≤ 59 := by
    unfold minuteOfHour
    omega
  have htext : write t = yearDigits t.date.year ++ '-' :: (two t.date.month ++ '-' ::
      (two t.date.day ++ 'T' :: (two t.hour ++ ':' :: (two t.minuteOfHour ++ ':' ::
        (two t.second ++ (fractionDigits t.nano ++ ['Z'])))))) := by
    simp [write]
  rw [htext, parts]
  refine (reads_year hfirst hlast (endsRun_cons (by decide))).bind ?_
  refine (reads_separator (by decide)).bind ((reads_two hmonth hmonth' (by omega)).bind ?_)
  refine (reads_separator (by decide)).bind ((reads_two hday hday' (by omega)).bind ?_)
  refine reads_timeMark.bind ((reads_two (Nat.zero_le _) hhour (by omega)).bind ?_)
  refine (reads_separator (by decide)).bind ?_
  refine (reads_two (Nat.zero_le _) hminute' (by omega)).bind ?_
  refine (reads_separator (by decide)).bind ?_
  refine (reads_two (Nat.zero_le _) hsecond (by omega)).bind ?_
  exact (reads_fraction t.nano_lt).bind (reads_offset.bind (Reads.pure _))

/-- The parts of an instant name that instant. -/
theorem instant_parts (t : Instant) :
    Parts.instant ⟨t.date, t.hour, t.minuteOfHour, t.second, t.nano, 0⟩ = .ok t := by
  have hminute := t.minute_lt
  have hsplit : t.hour * 60 + t.minuteOfHour = t.minute := by
    unfold hour minuteOfHour
    omega
  have hlocal : ofLocal? t.date t.minute t.second t.nano 0 = some t := by
    have hparts : ofParts? t.date t.minute t.second t.nano = some t :=
      dif_pos ⟨t.date_valid, t.minute_lt, t.second_le, t.nano_lt⟩
    have hnonneg : ¬ (t.minute : Int) - 0 < 0 := by omega
    have hbelow : ¬ (t.minute : Int) - 0 ≥ 24 * 60 := by omega
    have hnat : ((t.minute : Int) - 0).toNat = t.minute := by omega
    simp only [ofLocal?, hnonneg, hbelow, hnat, if_false, hparts]
  simp [Parts.instant, t.date_valid, hsplit, hlocal]

theorem read_write (t : Instant) : read (write t) = .ok t := by
  have hparts : parts.run (write t) = .ok (_, []) := reads_parts t
  simp [read, hparts, trimStart, instant_parts, Bind.bind, Except.bind]

end NetPool.Instant.Notation

namespace NetPool

/-- The text of an instant is read back as that instant. -/
theorem Instant.ofText?_text (t : Instant) : Instant.ofText? t.text = .ok t := by
  rw [Instant.ofText?, Instant.text, String.toList_ofList, Instant.Notation.read_write]

end NetPool
