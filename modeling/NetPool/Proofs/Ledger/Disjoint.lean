import NetPool.Proofs.Allocation

/-! # Disjoint assets

No address and no bridge belongs to two entries of a ledger, or twice to one of them. What an
allocation finds keeps clear of all that is in use, so it can be appended to the entries. -/

namespace NetPool

namespace Asset

/-- The four subnets share no address, and the two bridges have different names. -/
def Coherent (a : Asset) : Prop :=
  a.subnets.Pairwise (fun s t => ¬ s.Shares t) ∧ a.networkIf ≠ a.secondaryNetworkIf

/-- Two assets have no address and no bridge in common. -/
def Separate (a b : Asset) : Prop :=
  (∀ s ∈ a.subnets, ∀ t ∈ b.subnets, ¬ s.Shares t) ∧ ∀ n ∈ a.bridges, n ∉ b.bridges

instance (a : Asset) : Decidable a.Coherent := inferInstanceAs (Decidable (_ ∧ _))

instance (a b : Asset) : Decidable (a.Separate b) := inferInstanceAs (Decidable (_ ∧ _))

theorem Separate.ne {a b : Asset} (h : a.Separate b) : a ≠ b := by
  rintro rfl
  exact h.2 a.networkIf List.mem_cons_self List.mem_cons_self

theorem subnets_eq (a : Asset) :
    a.subnets = [.of a.machineCidr, .of a.machineCidr6, .of a.provisioningCidr,
      .of a.provisioningCidr6] := rfl

theorem bridges_eq (a : Asset) : a.bridges = [a.networkIf, a.secondaryNetworkIf] := rfl

end Asset

/-- All entries are coherent, and every two of them are separate. -/
def Ledger.Disjoint (es : List Asset) : Prop :=
  (∀ e ∈ es, e.Coherent) ∧ es.Pairwise Asset.Separate

namespace Ledger

instance (es : List Asset) : Decidable (Disjoint es) := inferInstanceAs (Decidable (_ ∧ _))

theorem disjoint_nil : Disjoint [] := ⟨fun _ he => absurd he List.not_mem_nil, .nil⟩

theorem Disjoint.sublist {es es' : List Asset} (h : Disjoint es) (hsub : es'.Sublist es) :
    Disjoint es' :=
  ⟨fun e he => h.1 e (hsub.subset he), h.2.sublist hsub⟩

theorem Disjoint.append {es : List Asset} {a : Asset} (h : Disjoint es) (ha : a.Coherent)
    (hes : ∀ e ∈ es, e.Separate a) : Disjoint (es ++ [a]) := by
  refine ⟨fun e he => ?_, List.pairwise_append.mpr ⟨h.2, List.pairwise_singleton _ _, ?_⟩⟩
  · rcases List.mem_append.mp he with he | he
    · exact h.1 e he
    · rwa [List.mem_singleton.mp he]
  · intro e he b hb
    rw [List.mem_singleton.mp hb]
    exact hes e he

end Ledger

namespace Allocation

variable {t : CheckedTemplate} {maxAttempts : Nat} {u : Uses} {a : Asset}

theorem FirstFit.admits {f : Field} (h : FirstFit t maxAttempts u a f) :
    (u.including a f.earlier).AdmitsValue f (a.value f) := by
  obtain ⟨_, _, _, hadmits, _⟩ := h
  exact hadmits

theorem ranges_including (u : Uses) (a : Asset) (fields : List Field) :
    (u.including a fields).ranges =
      u.ranges ++ fields.flatMap fun f => (Uses.ofValue f (a.value f)).ranges := by
  induction fields generalizing u with
  | nil => simp [Uses.including]
  | cons f fields ih =>
      have hrest := ih (u.append (Uses.ofValue f (a.value f)))
      simp only [Uses.including, List.foldl_cons] at hrest ⊢
      rw [hrest]
      simp [Uses.append]

theorem names_including (u : Uses) (a : Asset) (fields : List Field) :
    (u.including a fields).names =
      u.names ++ fields.flatMap fun f => (Uses.ofValue f (a.value f)).names := by
  induction fields generalizing u with
  | nil => simp [Uses.including]
  | cons f fields ih =>
      have hrest := ih (u.append (Uses.ofValue f (a.value f)))
      simp only [Uses.including, List.foldl_cons] at hrest ⊢
      rw [hrest]
      simp [Uses.append]

/-- What was chosen keeps clear of itself. -/
theorem coherent_of_firstFit (h : ∀ f, FirstFit t maxAttempts u a f) : a.Coherent := by
  have h₂ : (u.including a [.machineCidr]).Admits (.of a.machineCidr6) := (h .machineCidr6).admits
  have h₃ : (u.including a [.machineCidr, .machineCidr6]).Admits (.of a.provisioningCidr) :=
    (h .provisioningCidr).admits
  have h₄ : (u.including a [.machineCidr, .machineCidr6, .provisioningCidr]).Admits
      (.of a.provisioningCidr6) := (h .provisioningCidr6).admits
  have h₆ : (u.including a [.machineCidr, .machineCidr6, .provisioningCidr, .provisioningCidr6,
      .networkIf]).AdmitsName a.secondaryNetworkIf := (h .secondaryNetworkIf).admits
  have h₁₂ : ¬ (AnySubnet.of a.machineCidr).Shares (.of a.machineCidr6) :=
    h₂.1 _ (by simp [ranges_including, Uses.ofValue, Uses.ofRanges, Asset.value])
  have h₁₃ : ¬ (AnySubnet.of a.machineCidr).Shares (.of a.provisioningCidr) :=
    h₃.1 _ (by simp [ranges_including, Uses.ofValue, Uses.ofRanges, Asset.value])
  have h₂₃ : ¬ (AnySubnet.of a.machineCidr6).Shares (.of a.provisioningCidr) :=
    h₃.1 _ (by simp [ranges_including, Uses.ofValue, Uses.ofRanges, Asset.value])
  have h₁₄ : ¬ (AnySubnet.of a.machineCidr).Shares (.of a.provisioningCidr6) :=
    h₄.1 _ (by simp [ranges_including, Uses.ofValue, Uses.ofRanges, Asset.value])
  have h₂₄ : ¬ (AnySubnet.of a.machineCidr6).Shares (.of a.provisioningCidr6) :=
    h₄.1 _ (by simp [ranges_including, Uses.ofValue, Uses.ofRanges, Asset.value])
  have h₃₄ : ¬ (AnySubnet.of a.provisioningCidr).Shares (.of a.provisioningCidr6) :=
    h₄.1 _ (by simp [ranges_including, Uses.ofValue, Uses.ofRanges, Asset.value])
  refine ⟨?_, fun hsame => h₆.2 ?_⟩
  · simp [Asset.subnets_eq, h₁₂, h₁₃, h₁₄, h₂₃, h₂₄, h₃₄]
  · simp [names_including, Uses.ofValue, Uses.ofNames, Asset.value, hsame]

/-- What was chosen keeps clear of every asset that is in use. -/
theorem separate_of_firstFit (h : ∀ f, FirstFit t maxAttempts u a f) {e : Asset}
    (hranges : ∀ s ∈ e.subnets, s ∈ u.ranges) (hnames : ∀ n ∈ e.bridges, n ∈ u.names) :
    e.Separate a := by
  have hclear : ∀ {fields s}, (u.including a fields).Admits s → ∀ r ∈ e.subnets, ¬ r.Shares s := by
    intro fields s hadmits r hr
    refine hadmits.1 r ?_
    rw [ranges_including]
    exact List.mem_append_left _ (hranges r hr)
  have hfresh : ∀ {fields n}, (u.including a fields).AdmitsName n → n ∉ e.bridges := by
    intro fields n hadmits hn
    refine hadmits.2 ?_
    rw [names_including]
    exact List.mem_append_left _ (hnames n hn)
  refine ⟨fun s hs r hr => ?_, fun n hn hmem => ?_⟩
  · simp only [Asset.subnets_eq, List.mem_cons, List.not_mem_nil, or_false] at hr
    rcases hr with rfl | rfl | rfl | rfl
    · exact hclear (h .machineCidr).admits s hs
    · exact hclear (h .machineCidr6).admits s hs
    · exact hclear (h .provisioningCidr).admits s hs
    · exact hclear (h .provisioningCidr6).admits s hs
  · simp only [Asset.bridges_eq, List.mem_cons, List.not_mem_nil, or_false] at hmem
    rcases hmem with rfl | rfl
    · exact hfresh (h .networkIf).admits hn
    · exact hfresh (h .secondaryNetworkIf).admits hn

end Allocation

end NetPool
