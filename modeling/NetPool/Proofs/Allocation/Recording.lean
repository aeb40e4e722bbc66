import NetPool.Proofs.Ledger.Disjoint

/-! # What an allocation records

What is in use after an allocation is what was in use before and what it has chosen. An asset is
recorded field by field as it will be once it is read from the ledger. -/

namespace NetPool

namespace Occupancy

variable {o p : Occupancy} {u : Uses}

theorem including_append (o : Occupancy) (a : Asset) (fields more : List Field) :
    o.including a (fields ++ more) = (o.including a fields).including a more :=
  List.foldl_append

/-- An asset that is recorded by itself adds what an occupancy of its own does. -/
theorem addAsset_eq_union (o : Occupancy) (a : Asset) : o.addAsset a = o.union (ofAssets [a]) := by
  obtain ⟨hnetworks, haddresses, hnames⟩ := holds_ofAssets [a]
  have hadd : o.addAsset a = o.addUses (.ofAssets [a]) := rfl
  rw [hadd, addUses, union, Occupancy.mk.injEq]
  refine ⟨SortedSet.ext fun s => ?_, SortedSet.ext fun b => ?_, SortedSet.ext fun n => ?_⟩
  · simp only [SortedSet.mem_foldl_insert, SortedSet.mem_union, hnetworks, List.mem_map, eq_comm]
  · simp only [SortedSet.mem_foldl_insert, SortedSet.mem_union, haddresses]
  · simp only [SortedSet.mem_foldl_insert, SortedSet.mem_union, hnames]

/-- All that is in use in one occupancy is in use in the other. -/
structure Within (o p : Occupancy) : Prop where
  networks : ∀ s, s ∈ o.networks → s ∈ p.networks
  addresses : ∀ a, a ∈ o.addresses → a ∈ p.addresses
  names : ∀ n, n ∈ o.names → n ∈ p.names

theorem within_addUses (o : Occupancy) (u : Uses) : o.Within (o.addUses u) where
  networks _ h := SortedSet.mem_foldl_insert.mpr (.inl h)
  addresses _ h := SortedSet.mem_foldl_insert.mpr (.inl h)
  names _ h := SortedSet.mem_foldl_insert.mpr (.inl h)

theorem within_including (o : Occupancy) (a : Asset) (fields : List Field) :
    o.Within (o.including a fields) := by
  induction fields generalizing o with
  | nil => exact ⟨fun _ h => h, fun _ h => h, fun _ h => h⟩
  | cons f fields ih =>
      have hfirst := within_addUses o (.ofValue f (a.value f))
      have hrest := ih (o.addUses (.ofValue f (a.value f)))
      exact ⟨fun s h => hrest.networks s (hfirst.networks s h),
        fun b h => hrest.addresses b (hfirst.addresses b h),
        fun n h => hrest.names n (hfirst.names n h)⟩

/-- What an asset holds in a field is in use once that field is recorded. -/
theorem mem_including {a : Asset} {f : Field} {fields : List Field} (hf : f ∈ fields) :
    (∀ s ∈ (Uses.ofValue f (a.value f)).ranges, s.masked ∈ (o.including a fields).networks) ∧
      ∀ n ∈ (Uses.ofValue f (a.value f)).names, n ∈ (o.including a fields).names := by
  obtain ⟨before, after, rfl⟩ := List.append_of_mem hf
  rw [including_append]
  have hrest := within_including ((o.including a before).addUses (.ofValue f (a.value f))) a after
  refine ⟨fun s hs => hrest.networks _ (SortedSet.mem_foldl_insert.mpr (.inr ?_)), fun n hn =>
    hrest.names n (SortedSet.mem_foldl_insert.mpr (.inr hn))⟩
  exact List.mem_map_of_mem hs

/-- Nothing that is in use stands against the uses. -/
def Clear (o : Occupancy) (u : Uses) : Prop :=
  (∀ s ∈ u.ranges, o.conflicts s = false) ∧ ∀ n ∈ u.names, o.hasName n = false

theorem conflicts_of_within (h : o.Within p) {s : AnySubnet} (hs : o.conflicts s = true) :
    p.conflicts s = true := by
  rw [conflicts, Bool.or_eq_true, List.any_eq_true, List.any_eq_true] at hs ⊢
  rcases hs with ⟨r, hr, hoverlaps⟩ | ⟨a, ha, hcovers⟩
  · exact .inl ⟨r, h.networks r hr, hoverlaps⟩
  · exact .inr ⟨a, h.addresses a ha, hcovers⟩

theorem Clear.within (hp : p.Clear u) (h : o.Within p) : o.Clear u := by
  refine ⟨fun s hs => Bool.eq_false_iff.mpr fun hconflicts => ?_,
    fun n hn => Bool.eq_false_iff.mpr fun hname => ?_⟩
  · have hused := conflicts_of_within h hconflicts
    rw [hp.1 s hs] at hused
    cases hused
  · have hmem := h.names n (SortedSet.contains_iff.mp hname)
    have hused : p.hasName n = true := SortedSet.contains_iff.mpr hmem
    rw [hp.2 n hn] at hused
    cases hused

theorem not_shares_of_mem {r s : AnySubnet} (hr : r.masked ∈ o.networks)
    (hs : o.conflicts s = false) : ¬ r.Shares s := by
  intro hshares
  have hoverlaps := AnySubnet.overlaps_iff_shares.mpr (AnySubnet.masked_shares.mpr hshares)
  rw [conflicts, Bool.or_eq_false_iff, List.any_eq_false] at hs
  exact hs.1 _ hr hoverlaps

end Occupancy

/-- The subnets that the searches start from. -/
def CheckedTemplate.subnets (t : CheckedTemplate) : List AnySubnet :=
  [.of t.machineCidr, .of t.machineCidr6, .of t.provisioningCidr, .of t.provisioningCidr6]

/-- The family and the prefix length of a subnet. -/
def AnySubnet.shape (s : AnySubnet) : Family × Nat := (s.family, s.subnet.length)

namespace Allocation

variable {t : CheckedTemplate} {maxAttempts : Nat} {o o' : Occupancy} {a : Asset}

/-! ## One search -/

/-- The value is what the template asks for: a subnet of its prefix length, or any name. -/
def Shaped (t : CheckedTemplate) : (f : Field) → f.Value → Prop
  | .machineCidr, s => s.length = t.machineCidr.length
  | .machineCidr6, s => s.length = t.machineCidr6.length
  | .provisioningCidr, s => s.length = t.provisioningCidr.length
  | .provisioningCidr6, s => s.length = t.provisioningCidr6.length
  | .networkIf, _ | .secondaryNetworkIf, _ => True

theorem clear_of_pickSubnet {f : Family} {field : Field} {start s : Subnet f}
    (h : ((pickSubnet maxAttempts field start).outcome o).1 = .ok s) :
    o.Clear (.ofRanges [.of s]) ∧ s.length = start.length := by
  have hfinds := pickSubnet_findsFirst maxAttempts field start o
  rw [h] at hfinds
  obtain ⟨k, _, hwalk, hfree, _⟩ := hfinds
  refine ⟨⟨?_, nofun⟩, (Subnet.origin_of_walk? hwalk).1⟩
  intro r hr
  rwa [List.mem_singleton.mp hr]

theorem clear_of_pickName {field : Field} {stem n : String}
    (h : ((pickName maxAttempts field stem).outcome o).1 = .ok n) : o.Clear (.ofNames [n]) := by
  have hfinds := pickName_findsFirst maxAttempts field stem o
  rw [h] at hfinds
  obtain ⟨k, _, _, hfree, _⟩ := hfinds
  refine ⟨nofun, ?_⟩
  intro m hm
  rwa [List.mem_singleton.mp hm]

/-- Nothing in use stands against what a search chooses. -/
theorem clear_of_search {f : Field} {v : f.Value}
    (h : ((search t maxAttempts f).outcome o).1 = .ok v) :
    o.Clear (.ofValue f v) ∧ Shaped t f v := by
  cases f with
  | machineCidr => exact clear_of_pickSubnet h
  | machineCidr6 => exact clear_of_pickSubnet h
  | provisioningCidr => exact clear_of_pickSubnet h
  | provisioningCidr6 => exact clear_of_pickSubnet h
  | networkIf => exact ⟨clear_of_pickName h, trivial⟩
  | secondaryNetworkIf => exact ⟨clear_of_pickName h, trivial⟩

/-! ## What was picked -/

theorem Picks.clear {f : Field} (h : Picks t maxAttempts o a f) :
    (o.including a f.earlier).Clear (.ofValue f (a.value f)) ∧ Shaped t f (a.value f) :=
  clear_of_search (congrArg Prod.fst h)

theorem subnets_eq_flatMap (a : Asset) :
    a.subnets = Field.all.flatMap fun f => (Uses.ofValue f (a.value f)).ranges := rfl

theorem bridges_eq_flatMap (a : Asset) :
    a.bridges = Field.all.flatMap fun f => (Uses.ofValue f (a.value f)).names := rfl

/-- What was picked was not in use. -/
theorem clear_of_picks (h : ∀ f, Picks t maxAttempts o a f) :
    (∀ s ∈ a.subnets, o.conflicts s = false) ∧ ∀ n ∈ a.bridges, o.hasName n = false := by
  have hfield : ∀ f, o.Clear (.ofValue f (a.value f)) :=
    fun f => (h f).clear.1.within (Occupancy.within_including o a f.earlier)
  refine ⟨fun s hs => ?_, fun n hn => ?_⟩
  · rw [subnets_eq_flatMap] at hs
    obtain ⟨f, _, hf⟩ := List.mem_flatMap.mp hs
    exact (hfield f).1 s hf
  · rw [bridges_eq_flatMap] at hn
    obtain ⟨f, _, hf⟩ := List.mem_flatMap.mp hn
    exact (hfield f).2 n hf

/-- What was picked for a field was recorded before the next search, so nothing was picked twice. -/
theorem coherent_of_picks (h : ∀ f, Picks t maxAttempts o a f) : a.Coherent := by
  have hsingle : ∀ f : Field,
      (Uses.ofValue f (a.value f)).ranges.Pairwise fun r s => ¬ r.Shares s := by
    intro f
    cases f <;> simp [Uses.ofValue, Uses.ofRanges, Uses.ofNames]
  have horder : Field.all.Pairwise fun g f => g ∈ f.earlier := by decide
  refine ⟨?_, fun hsame => ?_⟩
  · rw [subnets_eq_flatMap, List.pairwise_flatMap]
    refine ⟨fun f _ => hsingle f, horder.imp fun {g f} hg r hr s hs => ?_⟩
    exact Occupancy.not_shares_of_mem ((Occupancy.mem_including hg).1 r hr) ((h f).clear.1.1 s hs)
  · have hused : a.networkIf ∈ (o.including a Field.secondaryNetworkIf.earlier).names :=
      (Occupancy.mem_including (f := .networkIf) (by decide)).2 _ List.mem_cons_self
    have hfree := (h .secondaryNetworkIf).clear.1.2 a.secondaryNetworkIf List.mem_cons_self
    rw [← hsame, Occupancy.hasName, SortedSet.contains_iff.mpr hused] at hfree
    cases hfree

theorem shape_of_picks (h : ∀ f, Picks t maxAttempts o a f) :
    a.subnets.map AnySubnet.shape = t.subnets.map AnySubnet.shape := by
  have h₁ : a.machineCidr.length = t.machineCidr.length := (h .machineCidr).clear.2
  have h₂ : a.machineCidr6.length = t.machineCidr6.length := (h .machineCidr6).clear.2
  have h₃ : a.provisioningCidr.length = t.provisioningCidr.length := (h .provisioningCidr).clear.2
  have h₄ : a.provisioningCidr6.length = t.provisioningCidr6.length :=
    (h .provisioningCidr6).clear.2
  simp [Asset.subnets_eq, CheckedTemplate.subnets, AnySubnet.shape, AnySubnet.of, h₁, h₂, h₃, h₄]

/-- Whatever is in use: an asset that is found conflicts with nothing in use nor with itself, has the
prefix lengths of the template, and is recorded as a whole and as it would be read from a ledger. If
nothing is found for a field, what was picked for the fields before it is recorded, in order, and no
more. -/
theorem allocate_records (t : CheckedTemplate) (maxAttempts : Nat) (o : Occupancy) :
    match (allocate t maxAttempts).outcome o with
    | (.ok a, o') =>
        (∀ s ∈ a.subnets, o.conflicts s = false) ∧ (∀ n ∈ a.bridges, o.hasName n = false) ∧
          a.Coherent ∧ a.subnets.map AnySubnet.shape = t.subnets.map AnySubnet.shape ∧
          (∀ f, Picks t maxAttempts o a f) ∧
          o' = o.addAsset a ∧ o' = o.union (Occupancy.ofAssets [a]) ∧ o'.addresses = o.addresses
    | (.error e, o') =>
        ∃ a, o' = o.including a e.field.earlier ∧
          (∀ f ∈ e.field.earlier, Picks t maxAttempts o a f) ∧
          (search t maxAttempts e.field).outcome o' = (.error e, o') := by
  have hrecords := allocate_picks t maxAttempts o
  generalize (allocate t maxAttempts).outcome o = outcome at hrecords
  cases hrecords with
  | @ok a _ hpicks =>
      obtain ⟨hsubnets, hnames⟩ := clear_of_picks hpicks
      exact ⟨hsubnets, hnames, coherent_of_picks hpicks, shape_of_picks hpicks, hpicks, rfl,
        o.addAsset_eq_union a, rfl⟩
  | exhausted a hpicks hfails => exact ⟨a, rfl, hpicks, hfails⟩

end Allocation

end NetPool
