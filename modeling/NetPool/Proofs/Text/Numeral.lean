import NetPool.Text.Numeral

/-! # Written numerals

A reader of digits gives back the number that was written, whatever follows it, as long as that
is not another digit. -/

namespace NetPool

/-- A text at which a run of characters with the property `p` ends. -/
def Text.EndsRun (p : Char → Bool) (cs : List Char) : Prop := ∀ c ∈ cs.head?, p c = false

namespace Text

theorem endsRun_nil (p : Char → Bool) : EndsRun p [] := by simp [EndsRun]

theorem endsRun_cons {p : Char → Bool} {c : Char} {cs : List Char} (h : p c = false) :
    EndsRun p (c :: cs) := by
  simpa [EndsRun] using h

theorem takeWhile_of_endsRun {p : Char → Bool} {rest : List Char} (h : EndsRun p rest) :
    rest.takeWhile p = [] := by
  cases rest with
  | nil => rfl
  | cons c cs => simp [h c (by simp)]

theorem dropWhile_of_endsRun {p : Char → Bool} {rest : List Char} (h : EndsRun p rest) :
    rest.dropWhile p = rest := by
  cases rest with
  | nil => rfl
  | cons c cs => simp [h c (by simp)]

theorem takeWhile_append_of_endsRun {p : Char → Bool} {run rest : List Char}
    (hrun : ∀ c ∈ run, p c = true) (hrest : EndsRun p rest) :
    (run ++ rest).takeWhile p = run := by
  rw [List.takeWhile_append_of_pos hrun, takeWhile_of_endsRun hrest, List.append_nil]

theorem dropWhile_append_of_endsRun {p : Char → Bool} {run rest : List Char}
    (hrun : ∀ c ∈ run, p c = true) (hrest : EndsRun p rest) :
    (run ++ rest).dropWhile p = rest := by
  rw [List.dropWhile_append_of_pos hrun, dropWhile_of_endsRun hrest]

end Text

namespace Numeral

/-! ## Digits -/

theorem digitValue?_digitChar {d : Nat} (h : d < 16) : digitValue? d.digitChar = some d := by
  have hall : ∀ d < 16, digitValue? d.digitChar = some d := by decide
  exact hall d h

theorem isDigit_digitChar {base d : Nat} (hd : d < base) (hbase : base ≤ 16) :
    isDigit base d.digitChar = true := by
  rw [isDigit, digitValue?_digitChar (by omega)]
  simpa using hd

theorem isDigit_of_mem_toDigits {base n : Nat} (h₁ : 1 < base) (h₂ : base ≤ 16) {c : Char}
    (hc : c ∈ Nat.toDigits base n) : isDigit base c = true := by
  induction n using Nat.strongRecOn with
  | ind n ih =>
      rw [Nat.toDigits_eq_if h₁] at hc
      split at hc
      · rename_i hn
        rw [List.mem_singleton.mp hc]
        exact isDigit_digitChar hn h₂
      · rename_i hn
        rcases List.mem_append.mp hc with hc | hc
        · exact ih (n / base) (Nat.div_lt_self (by omega) h₁) hc
        · rw [List.mem_singleton.mp hc]
          exact isDigit_digitChar (Nat.mod_lt _ (by omega)) h₂

theorem value_append (base : Nat) (front : List Char) (c : Char) :
    value base (front ++ [c]) = value base front * base + (digitValue? c).getD 0 := by
  simp [value]

/-- The digits of a number write that number. -/
theorem value_toDigits {base : Nat} (h₁ : 1 < base) (h₂ : base ≤ 16) (n : Nat) :
    value base (Nat.toDigits base n) = n := by
  induction n using Nat.strongRecOn with
  | ind n ih =>
      rw [Nat.toDigits_eq_if h₁]
      split
      · rename_i hn
        simp [value, digitValue?_digitChar (show n < 16 by omega)]
      · rename_i hn
        have hmod : n % base < base := Nat.mod_lt _ (by omega)
        rw [value_append, ih (n / base) (Nat.div_lt_self (by omega) h₁),
          digitValue?_digitChar (by omega), Option.getD_some, Nat.div_add_mod']

theorem value_replicate_zero_append (base k : Nat) (digits : List Char) :
    value base (List.replicate k '0' ++ digits) = value base digits := by
  have hzero : (digitValue? '0').getD 0 = 0 := by decide
  have hfold : ∀ k, (List.replicate k '0').foldl
      (fun n c => n * base + (digitValue? c).getD 0) 0 = 0 := by
    intro k
    induction k with
    | zero => rfl
    | succ k ih => simpa [List.replicate_succ, hzero] using ih
  simp [value, List.foldl_append, hfold]

theorem value_padded {base : Nat} (h₁ : 1 < base) (h₂ : base ≤ 16) (width n : Nat) :
    value base (padded width (Nat.toDigits base n)) = n := by
  rw [padded, value_replicate_zero_append, value_toDigits h₁ h₂]

theorem isDigit_of_mem_padded {base n width : Nat} (h₁ : 1 < base) (h₂ : base ≤ 16) {c : Char}
    (hc : c ∈ padded width (Nat.toDigits base n)) : isDigit base c = true := by
  rcases List.mem_append.mp hc with hc | hc
  · rw [List.eq_of_mem_replicate hc]
    exact isDigit_digitChar (d := 0) (by omega) h₂
  · exact isDigit_of_mem_toDigits h₁ h₂ hc

theorem length_padded {width : Nat} {digits : List Char} (h : digits.length ≤ width) :
    (padded width digits).length = width := by
  rw [padded, List.length_append, List.length_replicate]
  omega

theorem padded_ne_nil {base n width : Nat} : padded width (Nat.toDigits base n) ≠ [] := by
  simp [padded]

/-- Only the number zero starts with the digit zero. -/
theorem head?_toDigits_ne_zero {base n : Nat} (h₁ : 1 < base) (h₂ : base ≤ 16) (hn : 0 < n) :
    (Nat.toDigits base n).head? ≠ some '0' := by
  induction n using Nat.strongRecOn with
  | ind n ih =>
      rw [Nat.toDigits_eq_if h₁]
      split
      · rename_i hlt
        have hall : ∀ d < 16, 0 < d → some d.digitChar ≠ some '0' := by decide
        exact hall n (by omega) hn
      · rename_i hge
        have hdiv : 0 < n / base := Nat.div_pos (by omega) (by omega)
        have hhead := ih (n / base) (Nat.div_lt_self hn h₁) hdiv
        obtain ⟨c, cs, hcs⟩ := List.exists_cons_of_ne_nil (Nat.toDigits_ne_nil (n := n / base) (b := base))
        simpa [hcs] using hhead

/-! ## Reading -/

theorem read_toDigits {base places limit n : Nat} (h₁ : 1 < base) (h₂ : base ≤ 16)
    (hlength : (Nat.toDigits base n).length ≤ places) (hn : n < limit) {rest : List Char}
    (hrest : Text.EndsRun (isDigit base) rest) :
    read base places limit (Nat.toDigits base n ++ rest) = some (n, rest) := by
  have hdigits : ∀ c ∈ Nat.toDigits base n, isDigit base c = true :=
    fun c hc => isDigit_of_mem_toDigits h₁ h₂ hc
  rw [read, Text.takeWhile_append_of_endsRun hdigits hrest,
    Text.dropWhile_append_of_endsRun hdigits hrest]
  simp [value_toDigits h₁ h₂, hlength, hn]

/-- A text that starts with no digit is no numeral. -/
theorem read_eq_none {base places limit : Nat} {cs : List Char}
    (h : Text.EndsRun (isDigit base) cs) : read base places limit cs = none := by
  simp [read, Text.takeWhile_of_endsRun h]

/-! ## Whole texts -/

theorem isDigit_ten_iff {c : Char} : isDigit 10 c = true ↔ '0' ≤ c ∧ c ≤ '9' := by
  rw [isDigit, digitValue?]
  by_cases hdecimal : '0' ≤ c ∧ c ≤ '9'
  · have hle : c.toNat ≤ 57 := hdecimal.2
    have hlt : c.toNat - 48 < 10 := by omega
    simp [hdecimal, hlt]
  · rw [if_neg hdecimal]
    by_cases hsmall : 'a' ≤ c ∧ c ≤ 'f'
    · simp [hdecimal, hsmall]
    · by_cases hcapital : 'A' ≤ c ∧ c ≤ 'F' <;> simp [hdecimal, hsmall, hcapital]

theorem natural?_eq_some_iff {cs : List Char} {n : Nat} :
    natural? cs = some n ↔ cs ≠ [] ∧ (∀ c ∈ cs, isDigit 10 c = true) ∧ value 10 cs = n := by
  rw [natural?, ← List.all_eq_true]
  by_cases hcs : cs = []
  · simp [hcs]
  · cases hall : cs.all (isDigit 10) <;> simp [hcs]

theorem natural?_toDigits (n : Nat) : natural? (Nat.toDigits 10 n) = some n :=
  natural?_eq_some_iff.mpr ⟨Nat.toDigits_ne_nil,
    fun _ => isDigit_of_mem_toDigits (by decide) (by decide),
    value_toDigits (by decide) (by decide) n⟩

end Numeral
end NetPool
