import NetPool.Text.Bytes

/-! # Texts in bytes

The bytes of a text are read back as the text, without replacements. -/

namespace NetPool.Text

/-! ## Bytes that continue a character -/

theorem decodeFrom_last {low high b : UInt8} (hlow : low ≤ b) (hhigh : b ≤ high) (value : Nat)
    (bs : List UInt8) :
    decodeFrom 1 low high value (b :: bs) =
      Char.ofNat (value * 64 + b.toNat % 64) :: decodeFrom 0 0x80 0xbf 0 bs := by
  rw [decodeFrom, if_pos ⟨by decide, hlow, hhigh⟩]
  rfl

theorem decodeFrom_next {low high b : UInt8} (hlow : low ≤ b) (hhigh : b ≤ high) (due value : Nat)
    (bs : List UInt8) :
    decodeFrom (due + 2) low high value (b :: bs) =
      decodeFrom (due + 1) 0x80 0xbf (value * 64 + b.toNat % 64) bs := by
  rw [decodeFrom, if_pos ⟨by omega, hlow, hhigh⟩]
  simp

theorem decodeFrom_first {b : UInt8} {bs : List UInt8} {due bits : Nat} {low high : UInt8}
    (h : announces? b = some (due + 1, low, high, bits)) :
    decodeFrom 0 0x80 0xbf 0 (b :: bs) = decodeFrom (due + 1) low high bits bs := by
  rw [decodeFrom, if_neg (by simp)]
  simp [h]

theorem toNat_ofNat {n : Nat} (h : n < 0x100) : (UInt8.ofNat n).toNat = n :=
  UInt8.toNat_ofNat_of_lt' h

/-- The six bits that a byte contributes to a character are those above its mark. -/
theorem continues {n : Nat} (h : n < 0x40) :
    (0x80 : UInt8) ≤ UInt8.ofNat (n + 0x80) ∧ UInt8.ofNat (n + 0x80) ≤ 0xbf ∧
      (UInt8.ofNat (n + 0x80)).toNat % 64 = n := by
  have hn := toNat_ofNat (n := n + 0x80) (by omega)
  refine ⟨?_, ?_, by omega⟩
  · rw [UInt8.le_iff_toNat_le, hn]
    simp
  · rw [UInt8.le_iff_toNat_le, hn]
    simp
    omega

/-- The byte may have to lie in a smaller range. -/
theorem continues_within {n : Nat} {a b : UInt8} {p q : Prop} [Decidable p] [Decidable q]
    (h : n < 0x40) (hlow : p → a.toNat ≤ n + 0x80) (hhigh : q → n + 0x80 ≤ b.toNat) :
    (if p then a else 0x80) ≤ UInt8.ofNat (n + 0x80) ∧
      UInt8.ofNat (n + 0x80) ≤ if q then b else 0xbf := by
  have hn := toNat_ofNat (n := n + 0x80) (by omega)
  obtain ⟨hbottom, htop, _⟩ := continues h
  constructor
  · split
    · rename_i hp
      rw [UInt8.le_iff_toNat_le, hn]
      exact hlow hp
    · exact hbottom
  · split
    · rename_i hq
      rw [UInt8.le_iff_toNat_le, hn]
      exact hhigh hq
    · exact htop

/-! ## Single characters -/

theorem announces?_ofNat {n : Nat} (h : n < 0x100) :
    announces? (UInt8.ofNat n) =
      if n < 0x80 then some (0, 0x80, 0xbf, n)
      else if n < 0xc2 then none
      else if n < 0xe0 then some (1, 0x80, 0xbf, n % 0x20)
      else if n < 0xf0 then
        some (2, if n = 0xe0 then 0xa0 else 0x80, if n = 0xed then 0x9f else 0xbf, n % 0x10)
      else if n < 0xf5 then
        some (3, if n = 0xf0 then 0x90 else 0x80, if n = 0xf4 then 0x8f else 0xbf, n % 0x08)
      else none := by
  simp [announces?, UInt8.lt_iff_toNat_lt, ← UInt8.toNat_inj, toNat_ofNat h]

theorem decodeFrom_one {n : Nat} (h : n < 0x80) (bs : List UInt8) :
    decodeFrom 0 0x80 0xbf 0 (UInt8.ofNat n :: bs) =
      Char.ofNat n :: decodeFrom 0 0x80 0xbf 0 bs := by
  rw [decodeFrom, if_neg (by simp), announces?_ofNat (by omega), if_pos h]
  rfl

theorem decodeFrom_two {n : Nat} (h : 0x80 ≤ n) (hlimit : n < 0x800) (bs : List UInt8) :
    decodeFrom 0 0x80 0xbf 0
        (UInt8.ofNat (n / 64 % 0x20 + 0xc0) :: UInt8.ofNat (n % 0x40 + 0x80) :: bs) =
      Char.ofNat n :: decodeFrom 0 0x80 0xbf 0 bs := by
  obtain ⟨hlow, hhigh, hbits⟩ := continues (n := n % 0x40) (by omega)
  have hfirst : announces? (UInt8.ofNat (n / 64 % 0x20 + 0xc0)) =
      some (0 + 1, 0x80, 0xbf, n / 64) := by
    rw [announces?_ofNat (by omega), if_neg (by omega), if_neg (by omega), if_pos (by omega),
      show (n / 64 % 0x20 + 0xc0) % 0x20 = n / 64 by omega]
  rw [decodeFrom_first hfirst, decodeFrom_last hlow hhigh, hbits,
    show n / 64 * 64 + n % 0x40 = n by omega]

theorem decodeFrom_three {n : Nat} (h : 0x800 ≤ n) (hlimit : n < 0x10000)
    (hvalid : n < 0xd800 ∨ 0xdfff < n) (bs : List UInt8) :
    decodeFrom 0 0x80 0xbf 0
        (UInt8.ofNat (n / 4096 % 0x10 + 0xe0) :: UInt8.ofNat (n / 64 % 0x40 + 0x80) ::
          UInt8.ofNat (n % 0x40 + 0x80) :: bs) =
      Char.ofNat n :: decodeFrom 0 0x80 0xbf 0 bs := by
  obtain ⟨hlow, hhigh, hbits⟩ := continues (n := n % 0x40) (by omega)
  obtain ⟨hlow₁, hhigh₁, hbits₁⟩ := continues (n := n / 64 % 0x40) (by omega)
  have hfirst : announces? (UInt8.ofNat (n / 4096 % 0x10 + 0xe0)) =
      some (1 + 1, if n / 4096 % 0x10 + 0xe0 = 0xe0 then 0xa0 else 0x80,
        if n / 4096 % 0x10 + 0xe0 = 0xed then 0x9f else 0xbf, n / 4096) := by
    rw [announces?_ofNat (by omega), if_neg (by omega), if_neg (by omega), if_neg (by omega),
      if_pos (by omega), show (n / 4096 % 0x10 + 0xe0) % 0x10 = n / 4096 by omega]
  -- The range of the second byte leaves out what fewer bytes write, and the surrogates.
  obtain ⟨hlow₂, hhigh₂⟩ := continues_within (n := n / 64 % 0x40) (a := 0xa0) (b := 0x9f)
    (p := n / 4096 % 0x10 + 0xe0 = 0xe0) (q := n / 4096 % 0x10 + 0xe0 = 0xed) (by omega)
    (fun _ => show 0xa0 ≤ _ by omega) fun _ => show _ ≤ 0x9f by omega
  rw [decodeFrom_first hfirst, decodeFrom_next hlow₂ hhigh₂, decodeFrom_last hlow hhigh, hbits,
    hbits₁, show (n / 4096 * 64 + n / 64 % 0x40) * 64 + n % 0x40 = n by omega]

theorem decodeFrom_four {n : Nat} (h : 0x10000 ≤ n) (hlimit : n < 0x110000) (bs : List UInt8) :
    decodeFrom 0 0x80 0xbf 0
        (UInt8.ofNat (n / 262144 % 0x08 + 0xf0) :: UInt8.ofNat (n / 4096 % 0x40 + 0x80) ::
          UInt8.ofNat (n / 64 % 0x40 + 0x80) :: UInt8.ofNat (n % 0x40 + 0x80) :: bs) =
      Char.ofNat n :: decodeFrom 0 0x80 0xbf 0 bs := by
  obtain ⟨hlow, hhigh, hbits⟩ := continues (n := n % 0x40) (by omega)
  obtain ⟨hlow₁, hhigh₁, hbits₁⟩ := continues (n := n / 64 % 0x40) (by omega)
  obtain ⟨_, _, hbits₂⟩ := continues (n := n / 4096 % 0x40) (by omega)
  have hfirst : announces? (UInt8.ofNat (n / 262144 % 0x08 + 0xf0)) =
      some (2 + 1, if n / 262144 % 0x08 + 0xf0 = 0xf0 then 0x90 else 0x80,
        if n / 262144 % 0x08 + 0xf0 = 0xf4 then 0x8f else 0xbf, n / 262144) := by
    rw [announces?_ofNat (by omega), if_neg (by omega), if_neg (by omega), if_neg (by omega),
      if_neg (by omega), if_pos (by omega),
      show (n / 262144 % 0x08 + 0xf0) % 0x08 = n / 262144 by omega]
  obtain ⟨hlow₂, hhigh₂⟩ := continues_within (n := n / 4096 % 0x40) (a := 0x90) (b := 0x8f)
    (p := n / 262144 % 0x08 + 0xf0 = 0xf0) (q := n / 262144 % 0x08 + 0xf0 = 0xf4) (by omega)
    (fun _ => show 0x90 ≤ _ by omega) fun _ => show _ ≤ 0x8f by omega
  rw [decodeFrom_first hfirst, decodeFrom_next hlow₂ hhigh₂, decodeFrom_next hlow₁ hhigh₁,
    decodeFrom_last hlow hhigh, hbits, hbits₁, hbits₂,
    show ((n / 262144 * 64 + n / 4096 % 0x40) * 64 + n / 64 % 0x40) * 64 + n % 0x40 = n by omega]

theorem decodeFrom_utf8EncodeChar (c : Char) (bs : List UInt8) :
    decodeFrom 0 0x80 0xbf 0 (String.utf8EncodeChar c ++ bs) = c :: decodeFrom 0 0x80 0xbf 0 bs := by
  have hvalid : c.val.toNat < 0xd800 ∨ 0xdfff < c.val.toNat ∧ c.val.toNat < 0x110000 := c.valid
  have hc : Char.ofNat c.val.toNat = c := Char.ofNat_toNat c
  rw [String.utf8EncodeChar]
  generalize c.val.toNat = n at hvalid hc ⊢
  rw [← hc]
  split
  · exact decodeFrom_one (by omega) bs
  · split
    · exact decodeFrom_two (by omega) (by omega) bs
    · split
      · exact decodeFrom_three (by omega) (by omega) (by omega) bs
      · exact decodeFrom_four (by omega) (by omega) bs

/-! ## Whole texts -/

theorem decodeFrom_flatMap (cs : List Char) :
    decodeFrom 0 0x80 0xbf 0 (cs.flatMap String.utf8EncodeChar) = cs := by
  induction cs with
  | nil => rfl
  | cons c cs ih => rw [List.flatMap_cons, decodeFrom_utf8EncodeChar, ih]

theorem toList_loop (bytes : ByteArray) (i : Nat) (front : List UInt8) :
    ByteArray.toList.loop bytes i front = front.reverse ++ bytes.data.toList.drop i := by
  induction i, front using ByteArray.toList.loop.induct bytes with
  | case1 i front hlt ih =>
      have hdrop : bytes.data.toList.drop i = bytes.data[i] :: bytes.data.toList.drop (i + 1) :=
        List.drop_eq_getElem_cons (by simpa using hlt)
      rw [ByteArray.toList.loop, if_pos hlt, ih, hdrop]
      simp [ByteArray.get!, hlt]
  | case2 i front hge =>
      rw [ByteArray.toList.loop, if_neg hge, List.drop_of_length_le (by simpa using hge),
        List.append_nil]

theorem toList_eq_data (bytes : ByteArray) : bytes.toList = bytes.data.toList := by
  rw [ByteArray.toList, toList_loop]
  rfl

/-- What is written in UTF-8 is read as it is. -/
theorem decodeLossy_toUTF8 (s : String) : decodeLossy s.toUTF8 = s.toList := by
  rw [decodeLossy, String.toUTF8_eq_toByteArray, ← String.utf8Encode_toList, toList_eq_data,
    List.utf8Encode, List.toList_data_toByteArray, decodeFrom_flatMap]

theorem fromUTF8?_toUTF8 (s : String) : String.fromUTF8? s.toUTF8 = some s := by
  rw [String.fromUTF8?, String.toUTF8_eq_toByteArray, dif_pos s.isValidUTF8]
  rfl

end NetPool.Text
