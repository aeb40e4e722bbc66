import NetPool.Proofs.Decimal.Binary64
import NetPool.Proofs.Text.Numeral
import NetPool.Settings.Record

/-! # Texts of variables

The text of a variable counts as the value that it looks like. What looks like neither a boolean nor
a number stays as it is; what does comes back in the usual form of that value. -/

namespace NetPool.Settings

/-! ## Characters of values -/

def IsLetter (c : Char) : Prop := 'a' ≤ c ∧ c ≤ 'z' ∨ 'A' ≤ c ∧ c ≤ 'Z'

/-- A character that booleans and numbers are written with. -/
def IsValueCharacter (c : Char) : Prop :=
  IsLetter c ∨ Numeral.isDigit 10 c = true ∨ c ∈ ['+', '-', '.']

instance (c : Char) : Decidable (IsLetter c) := inferInstanceAs (Decidable (_ ∨ _))

instance (c : Char) : Decidable (IsValueCharacter c) := inferInstanceAs (Decidable (_ ∨ _))

theorem isLetter_of_toLower {c : Char} (h : IsLetter c.toLower) : IsLetter c := by
  by_cases hcapital : 'A' ≤ c ∧ c ≤ 'Z'
  · exact .inr hcapital
  · have hlower : c.toLower = c := dif_neg hcapital
    rwa [hlower] at h

theorem IsLetter.not_digit {c : Char} (h : IsLetter c) : ¬ Numeral.isDigit 10 c = true := by
  rw [Numeral.isDigit_ten_iff]
  rintro ⟨-, hnine⟩
  have hle : c.toNat ≤ 57 := hnine
  rcases h with ⟨hleast, -⟩ | ⟨hleast, -⟩
  · have : 97 ≤ c.toNat := hleast
    omega
  · have : 65 ≤ c.toNat := hleast
    omega

/-- What is a word in lower case consists of letters. -/
theorem letters_of_map_toLower {cs word : List Char} (h : cs.map Char.toLower = word)
    (hword : ∀ c ∈ word, IsLetter c) : ∀ c ∈ cs, IsLetter c := by
  intro c hc
  exact isLetter_of_toLower (hword _ (h ▸ List.mem_map_of_mem hc))

theorem booleanText_letters (b : Bool) : ∀ c ∈ (booleanText b).toList, IsLetter c := by
  cases b <;> simp [booleanText, IsLetter]

theorem booleanText?_letters {cs : List Char} {b : Bool} (h : booleanText? cs = some b) :
    ∀ c ∈ cs, IsLetter c := by
  simp only [booleanText?] at h
  split at h
  case isTrue htrue => exact letters_of_map_toLower htrue (booleanText_letters true)
  case isFalse =>
    split at h
    case isTrue hfalse => exact letters_of_map_toLower hfalse (booleanText_letters false)
    case isFalse => cases h

theorem digits_of_natural? {cs : List Char} {n : Nat} (h : Numeral.natural? cs = some n) :
    ∀ c ∈ cs, IsValueCharacter c :=
  fun c hc => .inr (.inl ((Numeral.natural?_eq_some_iff.mp h).2.1 c hc))

/-- A text is a sign and the rest of it. -/
theorem splitSign_characters {cs : List Char} (h : ∀ c ∈ (splitSign cs).2, IsValueCharacter c) :
    ∀ c ∈ cs, IsValueCharacter c := by
  unfold splitSign at h
  split at h
  · exact List.forall_mem_cons.mpr ⟨by decide, h⟩
  · exact List.forall_mem_cons.mpr ⟨by decide, h⟩
  · exact h

theorem integerText?_characters {cs : List Char} {s : Toml.Scalar} (h : integerText? cs = some s) :
    ∀ c ∈ cs, IsValueCharacter c := by
  obtain ⟨n, hn, -⟩ := Option.bind_eq_some_iff.mp h
  exact splitSign_characters (digits_of_natural? hn)

theorem exponentText?_characters {cs : List Char} {power : Int}
    (h : exponentText? cs = some power) : ∀ c ∈ cs, IsValueCharacter c := by
  cases cs with
  | nil => simp
  | cons c cs =>
      rw [exponentText?] at h
      split at h
      case isTrue hletter =>
        have hc : IsLetter c := by rcases hletter with rfl | rfl <;> decide
        obtain ⟨i, hi, -⟩ := Option.map_eq_some_iff.mp h
        obtain ⟨n, hn, -⟩ := Option.bind_eq_some_iff.mp hi
        exact List.forall_mem_cons.mpr ⟨.inl hc, splitSign_characters (digits_of_natural? hn)⟩
      case isFalse => cases h

theorem dropPoint_cases (cs : List Char) : (∃ after, cs = '.' :: after) ∨ dropPoint cs = cs := by
  unfold dropPoint
  split
  · exact .inl ⟨_, rfl⟩
  · exact .inr rfl

/-- A text is digits, a point and more digits if there is a point, and the rest of it. -/
theorem splitDecimal_cases (cs : List Char) :
    ∃ whole places rest, splitDecimal cs = (whole, places, rest) ∧
      (∀ c ∈ whole, Numeral.isDigit 10 c = true) ∧ (∀ c ∈ places, Numeral.isDigit 10 c = true) ∧
      (places = [] ∧ cs = whole ++ rest ∨ cs = whole ++ '.' :: (places ++ rest)) := by
  have hparts := List.takeWhile_append_dropWhile (p := Numeral.isDigit 10) (l := cs)
  have hwhole : ∀ c ∈ cs.takeWhile (Numeral.isDigit 10), Numeral.isDigit 10 c = true :=
    List.all_eq_true.mp List.all_takeWhile
  rcases dropPoint_cases (cs.dropWhile (Numeral.isDigit 10)) with ⟨after, hafter⟩ | hsame
  · refine ⟨_, after.takeWhile (Numeral.isDigit 10), after.dropWhile (Numeral.isDigit 10), ?_,
      hwhole, List.all_eq_true.mp List.all_takeWhile, .inr ?_⟩
    · simp [splitDecimal, hafter, dropPoint]
    · rw [List.takeWhile_append_dropWhile, ← hafter, hparts]
  · refine ⟨_, [], _, ?_, hwhole, by simp, .inl ⟨rfl, hparts.symm⟩⟩
    simp [splitDecimal, hsame]

theorem splitDecimal_of_digits {cs : List Char} (h : ∀ c ∈ cs, Numeral.isDigit 10 c = true) :
    splitDecimal cs = (cs, [], []) := by
  have htake := Text.takeWhile_append_of_endsRun h (Text.endsRun_nil _)
  have hdrop := Text.dropWhile_append_of_endsRun h (Text.endsRun_nil _)
  rw [List.append_nil] at htake hdrop
  rw [splitDecimal, htake, hdrop]
  rfl

theorem floatText?_characters {cs : List Char} {x : Binary64} (h : floatText? cs = some x) :
    ∀ c ∈ cs, IsValueCharacter c := by
  have hwords : ∀ word ∈ ["inf".toList, "infinity".toList, "nan".toList],
      ∀ c ∈ word, IsLetter c := by simp [IsLetter]
  simp only [floatText?] at h
  apply splitSign_characters
  generalize (splitSign cs).2 = body at h ⊢
  have hword : ∀ word ∈ ["inf".toList, "infinity".toList, "nan".toList],
      body.map Char.toLower = word → ∀ c ∈ body, IsValueCharacter c :=
    fun word hmem hbody c hc => .inl (letters_of_map_toLower hbody (hwords word hmem) c hc)
  split at h
  case isTrue hinf =>
    rcases hinf with hinf | hinf
    · exact hword "inf".toList (by simp) hinf
    · exact hword "infinity".toList (by simp) hinf
  case isFalse =>
    split at h
    case isTrue hnan => exact hword "nan".toList (by simp) hnan
    case isFalse =>
      obtain ⟨whole, places, rest, hsplit, hwhole, hplaces, hbody⟩ := splitDecimal_cases body
      simp only [hsplit] at h
      split at h
      case isTrue => cases h
      case isFalse =>
        obtain ⟨power, hpower, -⟩ := Option.map_eq_some_iff.mp h
        have hrest := exponentText?_characters hpower
        have hdigits : ∀ {digits : List Char}, (∀ c ∈ digits, Numeral.isDigit 10 c = true) →
            ∀ c ∈ digits, IsValueCharacter c := fun h c hc => .inr (.inl (h c hc))
        rcases hbody with ⟨-, rfl⟩ | rfl
        · exact List.forall_mem_append.mpr ⟨hdigits hwhole, hrest⟩
        · exact List.forall_mem_append.mpr ⟨hdigits hwhole, List.forall_mem_cons.mpr
            ⟨by decide, List.forall_mem_append.mpr ⟨hdigits hplaces, hrest⟩⟩⟩

/-! ## What is written back -/

theorem toDigits_characters (n : Nat) : ∀ c ∈ Nat.toDigits 10 n, IsValueCharacter c :=
  fun _ hc => .inr (.inl (Numeral.isDigit_of_mem_toDigits (by decide) (by decide) hc))

theorem inFull_characters {digits : List Char} (h : ∀ c ∈ digits, IsValueCharacter c)
    (point : Int) : ∀ c ∈ Layout.plain.inFull digits point, IsValueCharacter c := by
  have hpoint : IsValueCharacter '.' := by decide
  have hzero : IsValueCharacter '0' := by decide
  have hzeros : ∀ n, ∀ c ∈ List.replicate n '0', IsValueCharacter c := by
    intro n c hc
    rwa [List.eq_of_mem_replicate hc]
  rw [Layout.inFull]
  split
  · exact List.forall_mem_append.mpr ⟨List.forall_mem_append.mpr
      ⟨by simp [hzero, hpoint], hzeros _⟩, h⟩
  · split
    · exact List.forall_mem_append.mpr ⟨fun c hc => h c (List.mem_of_mem_take hc),
        List.forall_mem_cons.mpr ⟨hpoint, fun c hc => h c (List.mem_of_mem_drop hc)⟩⟩
    · exact List.forall_mem_append.mpr ⟨List.forall_mem_append.mpr ⟨h, hzeros _⟩,
        by simp [Layout.plain]⟩

theorem magnitude_characters (mantissa : Nat) (exponent : Int) :
    ∀ c ∈ Layout.plain.magnitude mantissa exponent, IsValueCharacter c := by
  rw [Layout.magnitude]
  split
  · have hzero : IsValueCharacter '0' := by decide
    simp [Layout.plain, hzero]
  · exact inFull_characters (toDigits_characters _) _

/-- The text of what is no text itself. -/
theorem scalarText_characters {s : Toml.Scalar} (h : ∀ t, s ≠ .text t) :
    ∀ c ∈ (scalarText s).toList, IsValueCharacter c := by
  have hminus : IsValueCharacter '-' := by decide
  cases s with
  | boolean b => exact fun c hc => .inl (booleanText_letters b c hc)
  | integer n =>
      rw [scalarText, Numeral.integerText, String.toList_append, Numeral.text, String.toList_ofList]
      refine List.forall_mem_append.mpr ⟨?_, toDigits_characters _⟩
      split <;> simp [hminus]
  | float x =>
      cases x with
      | nan => simp [scalarText, Layout.text, IsValueCharacter, IsLetter]
      | infinite negative =>
          cases negative <;> simp [scalarText, Layout.text, IsValueCharacter, IsLetter]
      | finite negative m e =>
          rw [scalarText, Layout.text, String.toList_ofList]
          refine List.forall_mem_append.mpr ⟨?_, magnitude_characters m e⟩
          split <;> simp [hminus]
  | text t => exact absurd rfl (h t)

/-! ## Texts that stay -/

/-- A text that looks like neither a boolean nor a number. -/
structure LooksPlain (text : String) : Prop where
  boolean : booleanText? text.toList = none
  integer : integerText? text.toList = none
  float : floatText? text.toList = none

theorem LooksPlain.variableValue {text : String} (h : LooksPlain text) :
    variableValue text = .text text := by
  rw [Settings.variableValue, h.boolean, h.integer, h.float]

/-- What does not look plain is written in the characters of booleans and numbers, and counts as no
text. -/
theorem looksPlain_or (text : String) :
    LooksPlain text ∨
      (∀ c ∈ text.toList, IsValueCharacter c) ∧ ∀ t, variableValue text ≠ .text t := by
  rw [variableValue]
  cases hboolean : booleanText? text.toList with
  | some b => exact .inr ⟨fun c hc => .inl (booleanText?_letters hboolean c hc), nofun⟩
  | none =>
      cases hinteger : integerText? text.toList with
      | some s =>
          obtain ⟨n, -, hs⟩ := Option.bind_eq_some_iff.mp hinteger
          obtain ⟨i, -, rfl⟩ := Option.map_eq_some_iff.mp hs
          exact .inr ⟨integerText?_characters hinteger, nofun⟩
      | none =>
          cases hfloat : floatText? text.toList with
          | some x => exact .inr ⟨floatText?_characters hfloat, nofun⟩
          | none => exact .inl ⟨hboolean, hinteger, hfloat⟩

/-- Any other character, such as the one between the names of a path, makes a text plain. It cannot
come from elsewhere either. -/
theorem looksPlain_of_mem {text : String} {c : Char} (hc : ¬ IsValueCharacter c)
    (hmem : c ∈ text.toList ∨ c ∈ (scalarText (variableValue text)).toList) : LooksPlain text := by
  rcases looksPlain_or text with hplain | ⟨hcharacters, hvalue⟩
  · exact hplain
  · rcases hmem with hmem | hmem
    · exact absurd (hcharacters c hmem) hc
    · exact absurd (scalarText_characters hvalue c hmem) hc

/-! ## Integers -/

theorem splitSign_subset (cs : List Char) : (splitSign cs).2 ⊆ cs := by
  unfold splitSign
  split
  · exact List.subset_cons_self _ _
  · exact List.subset_cons_self _ _
  · exact List.Subset.refl _

/-- Letters alone write no number. -/
theorem booleanText?_of_digit {cs : List Char} {c : Char} (hc : c ∈ cs)
    (hdigit : Numeral.isDigit 10 c = true) : booleanText? cs = none := by
  cases h : booleanText? cs with
  | none => rfl
  | some b => exact absurd hdigit (booleanText?_letters h c hc).not_digit

theorem exists_digit_of_natural? {cs : List Char} {n : Nat} (h : Numeral.natural? cs = some n) :
    ∃ c ∈ cs, Numeral.isDigit 10 c = true := by
  obtain ⟨hne, hdigits, -⟩ := Numeral.natural?_eq_some_iff.mp h
  obtain ⟨c, hc⟩ := List.exists_mem_of_ne_nil _ hne
  exact ⟨c, hc, hdigits c hc⟩

theorem variableValue_of_integer {text : String} {s : Toml.Scalar}
    (h : integerText? text.toList = some s) : variableValue text = s := by
  obtain ⟨n, hn, -⟩ := Option.bind_eq_some_iff.mp h
  obtain ⟨c, hc, hdigit⟩ := exists_digit_of_natural? hn
  rw [variableValue, booleanText?_of_digit (splitSign_subset _ hc) hdigit, h]

theorem splitSign_of_digits {cs : List Char} (h : ∀ c ∈ cs, Numeral.isDigit 10 c = true) :
    splitSign cs = (false, cs) := by
  unfold splitSign
  split
  · exact absurd (h '-' List.mem_cons_self) (by decide)
  · exact absurd (h '+' List.mem_cons_self) (by decide)
  · rfl

/-- The usual form of an integer of 64 bits is read as that integer. -/
theorem integerText?_integerText {i : Int} (hleast : -(Numeral.signedBound : Int) ≤ i)
    (hbound : i < Numeral.signedBound) :
    integerText? (Numeral.integerText i).toList = some (.integer i) := by
  have hdigits : ∀ c ∈ Nat.toDigits 10 i.natAbs, Numeral.isDigit 10 c = true :=
    fun _ => Numeral.isDigit_of_mem_toDigits (by decide) (by decide)
  have hread := Numeral.natural?_toDigits i.natAbs
  rw [Numeral.integerText, String.toList_append, Numeral.text, String.toList_ofList,
    Numeral.decimal]
  by_cases hneg : i < 0
  · have hsigned : Numeral.signed? true i.natAbs = some i := by
      rw [Numeral.signed?, if_pos rfl, if_pos (by omega)]
      congr 1
      omega
    have hsplit : splitSign ('-' :: Nat.toDigits 10 i.natAbs) =
        (true, Nat.toDigits 10 i.natAbs) := rfl
    simp [hneg, integerText?, hsplit, hread, Toml.Scalar.integer?, hsigned]
  · have hsigned : Numeral.signed? false i.natAbs = some i := by
      rw [Numeral.signed?, if_neg (by decide), if_pos (by omega)]
      congr 1
      omega
    simp [hneg, integerText?, splitSign_of_digits hdigits, hread, Toml.Scalar.integer?, hsigned]

/-! ## Natural numbers -/

/-- The number that comes back for a field of 64 bits where the digits of `n` are read. From
`2 ^ 63` on it has gone through the double format. -/
def heldNatural (n : Nat) : Nat :=
  if n < Numeral.signedBound then n else min (wordLimit - 1) (Binary64.nearestMultiple 2048 n)

/-- No large number comes back as a small one. -/
theorem le_heldNatural {n : Nat} (h : Numeral.signedBound ≤ n) :
    Numeral.signedBound ≤ heldNatural n := by
  have hleast := Binary64.div_le_roundHalfEven n 2048
  rw [heldNatural, if_neg (Nat.not_lt_of_le h), wordLimit, Binary64.nearestMultiple]
  rw [Numeral.signedBound] at h ⊢
  omega

theorem heldNatural_of_lt {n : Nat} (h : heldNatural n < Numeral.signedBound) :
    heldNatural n = n := by
  by_cases hn : n < Numeral.signedBound
  · exact if_pos hn
  · exact absurd h (Nat.not_lt_of_le (le_heldNatural (Nat.le_of_not_lt hn)))

/-- The numbers that come back as they are. The greatest one of 64 bits does so since it is the
bound. -/
theorem heldNatural_eq_self_iff (n : Nat) :
    heldNatural n = n ↔
      n < Numeral.signedBound ∨ n = wordLimit - 1 ∨ n < wordLimit ∧ 2048 ∣ n := by
  have hlast : wordLimit - 1 ≤ Binary64.nearestMultiple 2048 (wordLimit - 1) := by decide
  have hword : 0 < wordLimit := by decide
  rw [heldNatural, ← Binary64.nearestMultiple_eq_self_iff (by decide : 0 < 2048)]
  split
  case isTrue hn => simp [hn]
  case isFalse hn =>
    constructor
    · intro h
      omega
    · rintro (h | rfl | ⟨hbits, h⟩)
      · exact absurd h hn
      · exact Nat.min_eq_left hlast
      · rw [h]
        omega

section Natural

variable {text : String} {n : Nat} (h : Numeral.natural? (Numeral.dropPlus text.toList) = some n)
include h

theorem splitSign_of_natural? : splitSign text.toList = (false, Numeral.dropPlus text.toList) := by
  generalize text.toList = cs at h
  unfold splitSign
  split
  case h_1 cs =>
    have hminus := (Numeral.natural?_eq_some_iff.mp h).2.1 '-' List.mem_cons_self
    exact absurd hminus (by decide)
  case h_2 => rfl
  case h_3 cs _ hplus =>
    unfold Numeral.dropPlus
    split
    · exact absurd rfl (hplus _)
    · rfl

theorem floatText?_of_natural? : floatText? text.toList = some (.ofDecimal false n 0) := by
  obtain ⟨hne, hdigits, hvalue⟩ := Numeral.natural?_eq_some_iff.mp h
  obtain ⟨c, hc, hdigit⟩ := exists_digit_of_natural? h
  have hword : ∀ word : List Char, (∀ c ∈ word, IsLetter c) →
      (Numeral.dropPlus text.toList).map Char.toLower ≠ word := fun word hletters heq =>
    (letters_of_map_toLower heq hletters c hc).not_digit hdigit
  have hinf := hword "inf".toList (by simp [IsLetter])
  have hinfinity := hword "infinity".toList (by simp [IsLetter])
  have hnan := hword "nan".toList (by simp [IsLetter])
  have hsplit := splitDecimal_of_digits hdigits
  rw [floatText?, splitSign_of_natural? h]
  simp only [hinf, hinfinity, hnan, or_self, if_false, hsplit]
  simp [hne, exponentText?, hvalue]

/-- The digits of a large natural number look like a floating-point number. -/
theorem variableValue_of_natural? :
    variableValue text =
      if n < Numeral.signedBound then .integer n else .float (.ofDecimal false n 0) := by
  have hsplit := splitSign_of_natural? h
  by_cases hn : n < Numeral.signedBound
  · rw [if_pos hn]
    apply variableValue_of_integer
    simp [integerText?, hsplit, h, Toml.Scalar.integer?, Numeral.signed?, hn]
  · obtain ⟨c, hc, hdigit⟩ := exists_digit_of_natural? h
    have hmem : c ∈ text.toList := splitSign_subset _ (by rwa [hsplit])
    have hinteger : integerText? text.toList = none := by
      simp [integerText?, hsplit, h, Toml.Scalar.integer?, Numeral.signed?, hn]
    rw [if_neg hn, variableValue, booleanText?_of_digit hmem hdigit, hinteger,
      floatText?_of_natural? h]

theorem scalarNatural_of_natural? (origin : String) :
    scalarNatural origin (variableValue text) = .ok (heldNatural n) := by
  rw [variableValue_of_natural? h, heldNatural]
  split
  case isTrue => simp [scalarNatural]
  case isFalse hn =>
    rw [scalarNatural, Binary64.toNatClamped_ofDecimal (Nat.le_of_not_lt hn) (by decide)]

end Natural

end NetPool.Settings
