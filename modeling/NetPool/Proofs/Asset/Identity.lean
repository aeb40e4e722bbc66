import NetPool.Asset.Identity
import NetPool.Proofs.Allocation.Names
import NetPool.Proofs.Net.Notation

/-! # Asset identity

The text that an identity is made from can be taken apart again: no bar occurs in a written subnet nor
in an allocated name, and a written subnet is read back. So it stands for exactly the six values. -/

namespace NetPool

namespace Notation

/-! ## Characters of written subnets -/

/-- A character that may occur in a written subnet: a digit, or a sign between digits. -/
def IsSubnetCharacter (c : Char) : Prop := Numeral.isDigit 16 c = true ∨ c ∈ ['.', ':', '/']

theorem isDigit_of_le {base wider : Nat} (hle : base ≤ wider) {c : Char}
    (h : Numeral.isDigit base c = true) : Numeral.isDigit wider c = true := by
  unfold Numeral.isDigit at h ⊢
  split at h
  · simp only [decide_eq_true_eq] at h ⊢
    omega
  · cases h

theorem toDigits_characters {base : Nat} (h₁ : 1 < base) (h₂ : base ≤ 16) (n : Nat) :
    ∀ c ∈ Nat.toDigits base n, IsSubnetCharacter c :=
  fun _ hc => .inl (isDigit_of_le h₂ (Numeral.isDigit_of_mem_toDigits h₁ h₂ hc))

theorem quad_characters (n : Nat) : ∀ c ∈ quad n, IsSubnetCharacter c := by
  have hdecimal : ∀ m, ∀ c ∈ Numeral.decimal m, IsSubnetCharacter c :=
    toDigits_characters (by decide) (by decide)
  have hpoint : IsSubnetCharacter '.' := .inr (by decide)
  have hjoin : ∀ {front back : List Char}, (∀ c ∈ front, IsSubnetCharacter c) →
      (∀ c ∈ back, IsSubnetCharacter c) → ∀ c ∈ front ++ '.' :: back, IsSubnetCharacter c :=
    fun hfront hback => List.forall_mem_append.mpr ⟨hfront, List.forall_mem_cons.mpr ⟨hpoint, hback⟩⟩
  rw [← List.append_nil (quad n), quad_append, List.append_nil]
  exact hjoin (hdecimal _) (hjoin (hdecimal _) (hjoin (hdecimal _) (hdecimal _)))

theorem colonated_characters (gs : List Nat) : ∀ c ∈ colonated gs, IsSubnetCharacter c := by
  have hhex : ∀ m, ∀ c ∈ Numeral.hex m, IsSubnetCharacter c :=
    toDigits_characters (by decide) (by decide)
  cases gs with
  | nil => simp [colonated]
  | cons g gs =>
      rw [colonated_cons]
      refine List.forall_mem_append.mpr ⟨hhex g, fun c hc => ?_⟩
      obtain ⟨h, -, hc⟩ := List.mem_flatMap.mp hc
      rcases List.mem_cons.mp hc with rfl | hc
      · exact .inr (by decide)
      · exact hhex h c hc

theorem long_characters (n : Nat) : ∀ c ∈ long n, IsSubnetCharacter c := by
  have hmapped : ∀ c ∈ "::ffff:".toList, IsSubnetCharacter c := by
    simp [IsSubnetCharacter, Numeral.isDigit, Numeral.digitValue?]
  have hgap : ∀ c ∈ "::".toList, IsSubnetCharacter c := by simp [IsSubnetCharacter]
  rw [long]
  split
  · exact List.forall_mem_append.mpr ⟨hmapped, quad_characters _⟩
  · dsimp only
    split
    · exact List.forall_mem_append.mpr ⟨List.forall_mem_append.mpr ⟨colonated_characters _, hgap⟩,
        colonated_characters _⟩
    · exact colonated_characters _

theorem ofSubnet_characters {f : Family} (s : Subnet f) :
    ∀ c ∈ ofSubnet s, IsSubnetCharacter c := by
  have haddress : ∀ c ∈ ofAddress s.address, IsSubnetCharacter c := by
    cases f with
    | v4 => exact quad_characters _
    | v6 => exact long_characters _
  have hlength : ∀ c ∈ Numeral.decimal s.length, IsSubnetCharacter c :=
    toDigits_characters (by decide) (by decide) _
  exact List.forall_mem_append.mpr ⟨haddress, List.forall_mem_cons.mpr ⟨.inr (by decide), hlength⟩⟩

end Notation

theorem Subnet.text_injective {f : Family} {s t : Subnet f} (h : s.text = t.text) : s = t := by
  have hread := s.ofText?_text
  rw [h, t.ofText?_text] at hread
  exact (Option.some.inj hread).symm

theorem Subnet.bar_not_mem_text {f : Family} (s : Subnet f) : '|' ∉ s.text.toList := by
  intro h
  rw [Subnet.text, String.toList_ofList] at h
  have hbar : ¬ Notation.IsSubnetCharacter '|' := by
    unfold Notation.IsSubnetCharacter
    decide
  exact hbar (Notation.ofSubnet_characters s _ h)

namespace Asset

variable {a b : Asset}

/-! ## Six values in one text -/

/-- The texts of the six values, in the order of their fields. -/
def identityFields (a : Asset) : List String :=
  [a.machineCidr.text, a.machineCidr6.text, a.provisioningCidr.text, a.provisioningCidr6.text,
    a.networkIf, a.secondaryNetworkIf]

theorem identityFields_congr (h : ∀ f, a.value f = b.value f) :
    a.identityFields = b.identityFields := by
  have h₁ : a.machineCidr = b.machineCidr := h .machineCidr
  have h₂ : a.machineCidr6 = b.machineCidr6 := h .machineCidr6
  have h₃ : a.provisioningCidr = b.provisioningCidr := h .provisioningCidr
  have h₄ : a.provisioningCidr6 = b.provisioningCidr6 := h .provisioningCidr6
  have h₅ : a.networkIf = b.networkIf := h .networkIf
  have h₆ : a.secondaryNetworkIf = b.secondaryNetworkIf := h .secondaryNetworkIf
  rw [identityFields, identityFields, h₁, h₂, h₃, h₄, h₅, h₆]

theorem value_eq_of_identityFields (h : a.identityFields = b.identityFields) (f : Field) :
    a.value f = b.value f := by
  simp only [identityFields, List.cons.injEq, and_true] at h
  obtain ⟨h₁, h₂, h₃, h₄, h₅, h₆⟩ := h
  cases f with
  | machineCidr => exact Subnet.text_injective h₁
  | machineCidr6 => exact Subnet.text_injective h₂
  | provisioningCidr => exact Subnet.text_injective h₃
  | provisioningCidr6 => exact Subnet.text_injective h₄
  | networkIf => exact h₅
  | secondaryNetworkIf => exact h₆

theorem forall_mem_bridges {P : String → Prop} :
    (∀ n ∈ a.bridges, P n) ↔ P a.networkIf ∧ P a.secondaryNetworkIf := by
  simp [bridges]

theorem bar_not_mem_identityFields (h : ∀ n ∈ a.bridges, '|' ∉ n.toList) :
    ∀ p ∈ a.identityFields, '|' ∉ p.toList := by
  obtain ⟨hprimary, hsecondary⟩ := forall_mem_bridges.mp h
  simp only [identityFields, List.forall_mem_cons, List.not_mem_nil, false_imp_iff, implies_true,
    and_true]
  exact ⟨a.machineCidr.bar_not_mem_text, a.machineCidr6.bar_not_mem_text,
    a.provisioningCidr.bar_not_mem_text, a.provisioningCidr6.bar_not_mem_text, hprimary, hsecondary⟩

/-- The bars part the text into the texts of the six values. -/
theorem splitOn_identityText (h : ∀ n ∈ a.bridges, '|' ∉ n.toList) :
    a.identityText.toList.splitOn '|' = a.identityFields.map String.toList := by
  have hjoined :
      a.identityText.toList = List.intercalate ['|'] (a.identityFields.map String.toList) := by
    rw [identityText, String.toList_intercalate]
    rfl
  rw [hjoined]
  apply List.splitOn_intercalate
  · intro cs hcs
    obtain ⟨p, hp, rfl⟩ := List.mem_map.mp hcs
    exact bar_not_mem_identityFields h p hp
  · simp [identityFields]

theorem identityFields_eq_of_identityText (ha : ∀ n ∈ a.bridges, '|' ∉ n.toList)
    (hb : ∀ n ∈ b.bridges, '|' ∉ n.toList) (h : a.identityText = b.identityText) :
    a.identityFields = b.identityFields := by
  have hsplit := splitOn_identityText ha
  rw [h, splitOn_identityText hb] at hsplit
  exact ((List.map_inj_right fun _ _ => String.toList_inj.mp).mp hsplit).symm

theorem identityText_congr (h : ∀ f, a.value f = b.value f) : a.identityText = b.identityText :=
  congrArg (String.intercalate "|") (identityFields_congr h)

/-- Names that are allocated hold no bar. -/
theorem bar_not_mem_of_isNumbered {stem name : String} (h : IsNumbered stem name) :
    '|' ∉ name.toList := by
  intro hbar
  have hnot : ¬ IsNameCharacter '|' := by
    unfold IsNameCharacter
    decide
  exact hnot (h.legal _ hbar)

/-- The identity of an asset is the name-based identifier of the bytes of a text, and the text stands
for exactly the six values of the asset: the subnets with host bits and prefix lengths, and both names.
What stamps an asset bears does not matter, neither for the text nor for the identity. The names must
not hold a bar, and none does that is allocated from a checked template. -/
theorem identityText_eq_iff_values :
    (∀ a : Asset, a.identity = .ofName nameSpace a.identityText.toUTF8.toList) ∧
      (∀ a b : Asset, (∀ n ∈ a.bridges, '|' ∉ n.toList) → (∀ n ∈ b.bridges, '|' ∉ n.toList) →
        (a.identityText = b.identityText ↔ ∀ f, a.value f = b.value f)) ∧
      (∀ a b : Asset, (∀ f, a.value f = b.value f) →
        a.identityText = b.identityText ∧ a.identity = b.identity) ∧
      ∀ (t : CheckedTemplate) (m : Nat) (o : Occupancy) (a : Asset) (o' : Occupancy),
        (Allocation.allocate t m).outcome o = (.ok a, o') → ∀ n ∈ a.bridges, '|' ∉ n.toList := by
  refine ⟨fun _ => rfl, fun a b ha hb => ⟨fun h => ?_, identityText_congr⟩, fun a b h => ?_, ?_⟩
  · exact value_eq_of_identityFields (identityFields_eq_of_identityText ha hb h)
  · have htext := identityText_congr h
    exact ⟨htext, by rw [identity, identity, htext]⟩
  · intro t m o a o' h
    obtain ⟨hprimary, hsecondary⟩ := Allocation.isNumbered_of_allocate h
    exact forall_mem_bridges.mpr
      ⟨bar_not_mem_of_isNumbered hprimary, bar_not_mem_of_isNumbered hsecondary⟩

/-- All four subnets have host bits, one address embeds a short one, and the other has a gap. -/
def stamped : Asset where
  machineCidr := ⟨⟨0x0A00004D, by decide⟩, 25, by decide⟩
  machineCidr6 := ⟨⟨0xFFFF0A00004D, by decide⟩, 121, by decide⟩
  provisioningCidr := ⟨⟨0x0A000101, by decide⟩, 20, by decide⟩
  provisioningCidr6 := ⟨⟨0xFD000000000000000000000000000001, by decide⟩, 48, by decide⟩
  networkIf := "br-0"
  secondaryNetworkIf := "br_1"
  allocatedAt := some .epoch
  ownerPid := some 42

/-- The asset has an identity that the digest of its text gives, and the same one without its stamps.
With a host bit less the text is another, although the range is the same. -/
theorem identityText_eq_iff_values_stamped :
    stamped.identity = .ofName nameSpace
        "10.0.0.77/25|::ffff:10.0.0.77/121|10.0.1.1/20|fd00::1/48|br-0|br_1".toUTF8.toList ∧
      stamped.identity.bytes = [0x11, 0xab, 0x51, 0x5d, 0xae, 0x5b, 0x51, 0x41,
        0x8d, 0x26, 0xeb, 0x83, 0x26, 0x7a, 0x8f, 0x58] ∧
      stamped.identity = { stamped with allocatedAt := none, ownerPid := none }.identity ∧
      stamped.identityText ≠
        { stamped with machineCidr := stamped.machineCidr.masked }.identityText := by
  obtain ⟨hidentity, hiff, hcongr, -⟩ := identityText_eq_iff_values
  refine ⟨hidentity stamped, by decide +kernel, ?_, fun h => ?_⟩
  · refine (hcongr _ _ fun f => ?_).2
    cases f <;> rfl
  · have hvalues := (hiff _ _ (by decide) (by decide)).mp h .machineCidr
    exact absurd hvalues (by decide)

end Asset

end NetPool
