import NetPool.Proofs.Allocation.FirstFit
import NetPool.Proofs.Occupancy

/-! # First-fit allocation

Each field of an asset is the first candidate of its search that the uses admit, together with what
was chosen for the fields before it. A search fails exactly if there is no such candidate. -/

namespace NetPool

/-! ## Fields and their values -/

/-- What a field holds. -/
abbrev Field.Value : Field → Type
  | .machineCidr | .provisioningCidr => Subnet .v4
  | .machineCidr6 | .provisioningCidr6 => Subnet .v6
  | .networkIf | .secondaryNetworkIf => String

/-- The fields that are searched before a field. -/
def Field.earlier (f : Field) : List Field := all.takeWhile (· ≠ f)

/-- What an asset holds in a field. -/
def Asset.value (a : Asset) : (f : Field) → f.Value
  | .machineCidr => a.machineCidr
  | .machineCidr6 => a.machineCidr6
  | .provisioningCidr => a.provisioningCidr
  | .provisioningCidr6 => a.provisioningCidr6
  | .networkIf => a.networkIf
  | .secondaryNetworkIf => a.secondaryNetworkIf

/-- The candidates for a field, in the order in which they are tried. -/
def CheckedTemplate.candidate (t : CheckedTemplate) : (f : Field) → Nat → Option f.Value
  | .machineCidr => t.machineCidr.walk?
  | .machineCidr6 => t.machineCidr6.walk?
  | .provisioningCidr => t.provisioningCidr.walk?
  | .provisioningCidr6 => t.provisioningCidr6.walk?
  | .networkIf => fun i => some (Allocation.numbered t.networkIf.text i)
  | .secondaryNetworkIf => fun i => some (Allocation.numbered t.secondaryNetworkIf.text i)

namespace Uses

/-- What a value uses once it is chosen. -/
def ofValue : (f : Field) → f.Value → Uses
  | .machineCidr, s => ofRanges [.of s]
  | .machineCidr6, s => ofRanges [.of s]
  | .provisioningCidr, s => ofRanges [.of s]
  | .provisioningCidr6, s => ofRanges [.of s]
  | .networkIf, n => ofNames [n]
  | .secondaryNetworkIf, n => ofNames [n]

/-- The name is short enough for an interface, and it is not in use. -/
def AdmitsName (u : Uses) (n : String) : Prop := n.utf8ByteSize ≤ maxNameBytes ∧ n ∉ u.names

/-- The value may be chosen for the field. -/
def AdmitsValue (u : Uses) : (f : Field) → f.Value → Prop
  | .machineCidr, s => u.Admits (.of s)
  | .machineCidr6, s => u.Admits (.of s)
  | .provisioningCidr, s => u.Admits (.of s)
  | .provisioningCidr6, s => u.Admits (.of s)
  | .networkIf, n => u.AdmitsName n
  | .secondaryNetworkIf, n => u.AdmitsName n

/-- The uses together with what the asset holds in some fields. -/
def including (u : Uses) (a : Asset) (fields : List Field) : Uses :=
  fields.foldl (fun u f => u.append (ofValue f (a.value f))) u

end Uses

namespace Occupancy

variable {o : Occupancy} {u : Uses}

/-- Puts all that the uses name in. -/
def addUses (o : Occupancy) (u : Uses) : Occupancy where
  networks := (u.ranges.map AnySubnet.masked).foldl SortedSet.insert o.networks
  addresses := u.addresses.foldl SortedSet.insert o.addresses
  names := u.names.foldl SortedSet.insert o.names

/-- The occupancy with what the asset holds in some fields, recorded in their order. -/
def including (o : Occupancy) (a : Asset) (fields : List Field) : Occupancy :=
  fields.foldl (fun o f => o.addUses (.ofValue f (a.value f))) o

theorem Holds.addUses (h : o.Holds u) (v : Uses) : (o.addUses v).Holds (u.append v) := by
  refine ⟨fun s => ?_, fun a => ?_, fun n => ?_⟩
  · simp [Occupancy.addUses, Uses.append, SortedSet.mem_foldl_insert, h.networks, or_and_right,
      exists_or, eq_comm]
  · simp [Occupancy.addUses, Uses.append, SortedSet.mem_foldl_insert, h.addresses]
  · simp [Occupancy.addUses, Uses.append, SortedSet.mem_foldl_insert, h.names]

theorem Holds.including (h : o.Holds u) (a : Asset) (fields : List Field) :
    (o.including a fields).Holds (u.including a fields) := by
  induction fields generalizing o u with
  | nil => exact h
  | cons f fields ih => exact ih (h.addUses (.ofValue f (a.value f)))

end Occupancy

namespace Allocation

/-- The value of the field is the first candidate that the uses and the earlier fields admit. -/
def FirstFit (t : CheckedTemplate) (maxAttempts : Nat) (u : Uses) (a : Asset) (f : Field) : Prop :=
  IsFirst maxAttempts (t.candidate f) ((u.including a f.earlier).AdmitsValue f) (a.value f)

/-- The uses and the earlier fields admit no candidate for the field. -/
def NoFit (t : CheckedTemplate) (maxAttempts : Nat) (u : Uses) (a : Asset) (f : Field) : Prop :=
  NoneAdmitted maxAttempts (t.candidate f) ((u.including a f.earlier).AdmitsValue f)

/-- What an allocation may come to: an asset without stamps that is a first fit in every field, or
the first field that has no fit after those before it were chosen. -/
inductive Allocates (t : CheckedTemplate) (maxAttempts : Nat) (u : Uses) :
    Except Exhausted Asset → Prop
  | ok {a} (hstamps : a.allocatedAt = none ∧ a.ownerPid = none)
      (hfit : ∀ f, FirstFit t maxAttempts u a f) : Allocates t maxAttempts u (.ok a)
  | exhausted {e} (a : Asset) (hfit : ∀ f ∈ e.field.earlier, FirstFit t maxAttempts u a f)
      (hnone : NoFit t maxAttempts u a e.field) : Allocates t maxAttempts u (.error e)

/-! ## One search -/

theorem outcome_bind {α β : Type} (s : Search α) (k : α → Search β) (o : Occupancy) :
    Search.outcome (s >>= k) o =
      match s.outcome o with
      | (.ok v, o') => (k v).outcome o'
      | (.error e, o') => (.error e, o') := by
  simp only [Search.outcome, ExceptT.run_bind, StateT.run_bind]
  rcases (ExceptT.run s).run o with ⟨r, o'⟩
  cases r with
  | ok v => rfl
  | error e => rfl

theorem pickSubnet_spec {f : Family} {o : Occupancy} {u : Uses} (h : o.Holds u) (maxAttempts : Nat)
    (field : Field) (start : Subnet f) :
    FindsFirst maxAttempts start.walk? (fun s => u.Admits (.of s))
      ((pickSubnet maxAttempts field start).outcome o).1 := by
  apply (pickSubnet_findsFirst maxAttempts field start o).widen (Nat.le_refl _)
  · exact fun _ _ s _ => h.admits_iff
  · exact fun k hk hbeyond => absurd hk (Nat.not_lt_of_le hbeyond)

theorem pickName_spec {o : Occupancy} {u : Uses} (h : o.Holds u) (maxAttempts : Nat) (field : Field)
    (stem : String) :
    FindsFirst maxAttempts (fun i => some (numbered stem i)) u.AdmitsName
      ((pickName maxAttempts field stem).outcome o).1 := by
  apply (pickName_findsFirst maxAttempts field stem o).widen (Nat.min_le_left _ _)
  · intro i hi n hn
    obtain rfl := Option.some.inj hn
    have hfits := (numbered_fits_iff stem i).mpr (Nat.lt_of_lt_of_le hi (Nat.min_le_right _ _))
    rw [Uses.AdmitsName, ← h.hasName_iff, Bool.not_eq_true]
    exact and_iff_right hfits
  · intro i hi hbeyond n hn hadmits
    obtain rfl := Option.some.inj hn
    have hfits := (numbered_fits_iff stem i).mp hadmits.1
    omega

/-- The search for a field. -/
def search (t : CheckedTemplate) (maxAttempts : Nat) : (f : Field) → Search f.Value
  | .machineCidr => pickSubnet maxAttempts .machineCidr t.machineCidr
  | .machineCidr6 => pickSubnet maxAttempts .machineCidr6 t.machineCidr6
  | .provisioningCidr => pickSubnet maxAttempts .provisioningCidr t.provisioningCidr
  | .provisioningCidr6 => pickSubnet maxAttempts .provisioningCidr6 t.provisioningCidr6
  | .networkIf => pickName maxAttempts .networkIf t.networkIf.text
  | .secondaryNetworkIf => pickName maxAttempts .secondaryNetworkIf t.secondaryNetworkIf.text

/-- A search chooses a value and records it, or it records nothing. -/
theorem search_cases (t : CheckedTemplate) (maxAttempts : Nat) (f : Field) (o : Occupancy) :
    (∃ v, (search t maxAttempts f).outcome o = (.ok v, o.addUses (.ofValue f v))) ∨
      ∃ n, (search t maxAttempts f).outcome o = (.error ⟨f, n⟩, o) := by
  cases f with
  | machineCidr =>
      exact (pickSubnet_outcome maxAttempts _ t.machineCidr o).imp_right fun h => ⟨_, h⟩
  | machineCidr6 =>
      exact (pickSubnet_outcome maxAttempts _ t.machineCidr6 o).imp_right fun h => ⟨_, h⟩
  | provisioningCidr =>
      exact (pickSubnet_outcome maxAttempts _ t.provisioningCidr o).imp_right fun h => ⟨_, h⟩
  | provisioningCidr6 =>
      exact (pickSubnet_outcome maxAttempts _ t.provisioningCidr6 o).imp_right fun h => ⟨_, h⟩
  | networkIf => exact (pickName_outcome maxAttempts _ t.networkIf.text o).imp_right fun h => ⟨_, h⟩
  | secondaryNetworkIf =>
      exact (pickName_outcome maxAttempts _ t.secondaryNetworkIf.text o).imp_right fun h => ⟨_, h⟩

/-- A search chooses the first value that is admitted, if there is one. -/
theorem search_spec {o : Occupancy} {u : Uses} (h : o.Holds u) (t : CheckedTemplate)
    (maxAttempts : Nat) (f : Field) :
    FindsFirst maxAttempts (t.candidate f) (u.AdmitsValue f)
      ((search t maxAttempts f).outcome o).1 := by
  cases f with
  | machineCidr => exact pickSubnet_spec h maxAttempts .machineCidr t.machineCidr
  | machineCidr6 => exact pickSubnet_spec h maxAttempts .machineCidr6 t.machineCidr6
  | provisioningCidr => exact pickSubnet_spec h maxAttempts .provisioningCidr t.provisioningCidr
  | provisioningCidr6 => exact pickSubnet_spec h maxAttempts .provisioningCidr6 t.provisioningCidr6
  | networkIf => exact pickName_spec h maxAttempts .networkIf t.networkIf.text
  | secondaryNetworkIf =>
      exact pickName_spec h maxAttempts .secondaryNetworkIf t.secondaryNetworkIf.text

/-! ## All searches -/

/-- The search for a field finds what the asset holds there, once the fields before it are recorded,
and records it. -/
def Picks (t : CheckedTemplate) (maxAttempts : Nat) (o : Occupancy) (a : Asset) (f : Field) : Prop :=
  (search t maxAttempts f).outcome (o.including a f.earlier) =
    (.ok (a.value f), o.including a (f.earlier ++ [f]))

/-- What an allocation may come to, with what is in use afterwards: an asset without stamps, picked
field by field, or the first field for which nothing was found. -/
inductive Records (t : CheckedTemplate) (maxAttempts : Nat) (o : Occupancy) :
    Except Exhausted Asset × Occupancy → Prop
  | ok {a : Asset} (hstamps : a.allocatedAt = none ∧ a.ownerPid = none)
      (hpicks : ∀ f, Picks t maxAttempts o a f) :
      Records t maxAttempts o (.ok a, o.including a Field.all)
  | exhausted {e : Exhausted} (a : Asset)
      (hpicks : ∀ f ∈ e.field.earlier, Picks t maxAttempts o a f)
      (hfails : (search t maxAttempts e.field).outcome (o.including a e.field.earlier) =
        (.error e, o.including a e.field.earlier)) :
      Records t maxAttempts o (.error e, o.including a e.field.earlier)

variable {t : CheckedTemplate} {maxAttempts : Nat}

/-- A chain of searches goes on with what the first of them chooses and records, or ends with it. -/
theorem outcome_search_bind {o : Occupancy} (f : Field) {k : f.Value → Search Asset}
    {P : Except Exhausted Asset × Occupancy → Prop}
    (herror : ∀ n, (search t maxAttempts f).outcome o = (.error ⟨f, n⟩, o) →
      P (.error ⟨f, n⟩, o))
    (hok : ∀ v, (search t maxAttempts f).outcome o = (.ok v, o.addUses (.ofValue f v)) →
      P ((k v).outcome (o.addUses (.ofValue f v)))) :
    P (Search.outcome (search t maxAttempts f >>= k) o) := by
  rw [outcome_bind]
  rcases search_cases t maxAttempts f o with ⟨v, heq⟩ | ⟨n, heq⟩
  · rw [heq]
    exact hok v heq
  · rw [heq]
    exact herror n heq

/-- What all six searches together come to. -/
theorem allocate_picks (t : CheckedTemplate) (maxAttempts : Nat) (o : Occupancy) :
    Records t maxAttempts o ((allocate t maxAttempts).outcome o) := by
  -- The asset of which the fields are chosen one after the other. What it holds in later fields
  -- does not matter for the earlier ones.
  let a₀ : Asset := ⟨t.machineCidr, t.machineCidr6, t.provisioningCidr, t.provisioningCidr6,
    t.networkIf.text, t.secondaryNetworkIf.text, none, none⟩
  have hnil : ∀ {P : Field → Prop}, ∀ f ∈ ([] : List Field), P f :=
    fun f hf => absurd hf List.not_mem_nil
  refine outcome_search_bind .machineCidr (fun n hno => .exhausted a₀ hnil hno) fun v₁ h₁ => ?_
  let a₁ : Asset := { a₀ with machineCidr := v₁ }
  refine outcome_search_bind .machineCidr6
    (fun n hno => .exhausted a₁ (List.forall_mem_cons.mpr ⟨h₁, hnil⟩) hno) fun v₂ h₂ => ?_
  let a₂ : Asset := { a₁ with machineCidr6 := v₂ }
  refine outcome_search_bind .provisioningCidr
    (fun n hno => .exhausted a₂ (List.forall_mem_cons.mpr ⟨h₁, List.forall_mem_cons.mpr
      ⟨h₂, hnil⟩⟩) hno) fun v₃ h₃ => ?_
  let a₃ : Asset := { a₂ with provisioningCidr := v₃ }
  refine outcome_search_bind .provisioningCidr6
    (fun n hno => .exhausted a₃ (List.forall_mem_cons.mpr ⟨h₁, List.forall_mem_cons.mpr
      ⟨h₂, List.forall_mem_cons.mpr ⟨h₃, hnil⟩⟩⟩) hno) fun v₄ h₄ => ?_
  let a₄ : Asset := { a₃ with provisioningCidr6 := v₄ }
  refine outcome_search_bind .networkIf
    (fun n hno => .exhausted a₄ (List.forall_mem_cons.mpr ⟨h₁, List.forall_mem_cons.mpr
      ⟨h₂, List.forall_mem_cons.mpr ⟨h₃, List.forall_mem_cons.mpr ⟨h₄, hnil⟩⟩⟩⟩) hno)
    fun v₅ h₅ => ?_
  let a₅ : Asset := { a₄ with networkIf := v₅ }
  refine outcome_search_bind .secondaryNetworkIf
    (fun n hno => .exhausted a₅ (List.forall_mem_cons.mpr ⟨h₁, List.forall_mem_cons.mpr
      ⟨h₂, List.forall_mem_cons.mpr ⟨h₃, List.forall_mem_cons.mpr ⟨h₄,
        List.forall_mem_cons.mpr ⟨h₅, hnil⟩⟩⟩⟩⟩) hno) fun v₆ h₆ => ?_
  refine .ok ⟨rfl, rfl⟩ fun f => ?_
  cases f with
  | machineCidr => exact h₁
  | machineCidr6 => exact h₂
  | provisioningCidr => exact h₃
  | provisioningCidr6 => exact h₄
  | networkIf => exact h₅
  | secondaryNetworkIf => exact h₆

theorem Picks.firstFit {o : Occupancy} {u : Uses} {a : Asset} {f : Field}
    (hpicks : Picks t maxAttempts o a f) (h : o.Holds u) : FirstFit t maxAttempts u a f := by
  have hspec := search_spec (h.including a f.earlier) t maxAttempts f
  rw [hpicks] at hspec
  exact hspec

/-- An allocation finds a first fit in every field, or it fails with the first field without one. -/
theorem allocate_spec {o : Occupancy} {u : Uses} (h : o.Holds u) (t : CheckedTemplate)
    (maxAttempts : Nat) :
    Allocates t maxAttempts u ((allocate t maxAttempts).outcome o).1 := by
  have hrecords := allocate_picks t maxAttempts o
  generalize (allocate t maxAttempts).outcome o = outcome at hrecords
  cases hrecords with
  | ok hstamps hpicks => exact .ok hstamps fun f => (hpicks f).firstFit h
  | @exhausted e a hpicks hfails =>
      have hspec := search_spec (h.including a e.field.earlier) t maxAttempts e.field
      rw [hfails] at hspec
      exact .exhausted a (fun f hf => (hpicks f hf).firstFit h) hspec

end Allocation

end NetPool
