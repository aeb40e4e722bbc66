import NetPool.Proofs.Allocation

/-! # The cap on attempts

The cap only ends searches. Where it did not decide the outcome of an allocation, a higher cap leads
to the same outcome. -/

namespace NetPool

/-- The number of candidates of a field: those of its walk, or the numbers that fit after its stem. -/
def CheckedTemplate.supply (t : CheckedTemplate) : Field → Nat
  | .machineCidr => t.machineCidr.walkLength
  | .machineCidr6 => t.machineCidr6.walkLength
  | .provisioningCidr => t.provisioningCidr.walkLength
  | .provisioningCidr6 => t.provisioningCidr6.walkLength
  | .networkIf => Allocation.nameRoom t.networkIf.text
  | .secondaryNetworkIf => Allocation.nameRoom t.secondaryNetworkIf.text

namespace Allocation

variable {α β : Type} {o : Occupancy} {m m' : Nat}

/-- The cap did not decide the outcome: something was found, or the search ended before the cap. -/
def Settled (cap : Nat) : Except Exhausted α → Prop
  | .ok _ => True
  | .error e => e.attempts < cap

/-- Wherever the cap did not decide what the first search comes to, the second one comes to the same
and records the same. -/
def Outlasts (cap : Nat) (s s' : Search α) : Prop :=
  ∀ o, Settled cap (s.outcome o).1 → s'.outcome o = s.outcome o

/-! ## One search -/

/-- A walk that has found a free candidate, or has come to its end, does not go on. -/
theorem firstFree_of_le {f : Family} {left more tried : Nat} {s : Subnet f} (hle : left ≤ more)
    (hsettled : ∀ n, firstFree o left tried s = .error n → n < tried + left) :
    firstFree o more tried s = firstFree o left tried s := by
  induction left generalizing more tried s with
  | zero => exact absurd (hsettled tried rfl) (Nat.lt_irrefl tried)
  | succ left ih =>
      obtain ⟨more, rfl⟩ : ∃ k, more = k + 1 := ⟨more - 1, by omega⟩
      rw [firstFree] at hsettled
      rw [firstFree, firstFree]
      by_cases hconflict : o.conflicts (.of s) = true
      · rw [if_pos hconflict] at hsettled
        rw [if_pos hconflict, if_pos hconflict]
        cases hnext : s.next? with
        | none => rfl
        | some t =>
            rw [hnext] at hsettled
            apply ih (Nat.le_of_succ_le_succ hle)
            intro n hn
            have hlt := hsettled n hn
            omega
      · rw [if_neg hconflict, if_neg hconflict]

/-- Numbering that has found a free name, or has come to one that is too long, does not go on. -/
theorem firstFreeName_of_le {stem : String} {left more i : Nat} (hle : left ≤ more)
    (hsettled : ∀ n, firstFreeName o stem left i = .error n → n < i + left) :
    firstFreeName o stem more i = firstFreeName o stem left i := by
  induction left generalizing more i with
  | zero => exact absurd (hsettled i rfl) (Nat.lt_irrefl i)
  | succ left ih =>
      obtain ⟨more, rfl⟩ : ∃ k, more = k + 1 := ⟨more - 1, by omega⟩
      rw [firstFreeName] at hsettled
      rw [firstFreeName, firstFreeName]
      by_cases hlong : (numbered stem i).utf8ByteSize > maxNameBytes
      · rw [if_pos hlong, if_pos hlong]
      · rw [if_neg hlong] at hsettled
        rw [if_neg hlong, if_neg hlong]
        by_cases hused : o.hasName (numbered stem i) = true
        · rw [if_pos hused] at hsettled
          rw [if_pos hused, if_pos hused]
          apply ih (Nat.le_of_succ_le_succ hle)
          intro n hn
          have hlt := hsettled n hn
          omega
        · rw [if_neg hused, if_neg hused]

theorem pickSubnet_outlasts {f : Family} (hle : m ≤ m') (field : Field) (start : Subnet f) :
    Outlasts m (pickSubnet m field start) (pickSubnet m' field start) := by
  intro o hsettled
  have hsame : firstFree o m' 0 start = firstFree o m 0 start := by
    apply firstFree_of_le hle
    intro n hn
    rw [pickSubnet, outcome_of, hn] at hsettled
    rwa [Nat.zero_add]
  rw [pickSubnet, pickSubnet, outcome_of, outcome_of, hsame]

theorem pickName_outlasts (hle : m ≤ m') (field : Field) (stem : String) :
    Outlasts m (pickName m field stem) (pickName m' field stem) := by
  intro o hsettled
  have hsame : firstFreeName o stem m' 0 = firstFreeName o stem m 0 := by
    apply firstFreeName_of_le hle
    intro n hn
    rw [pickName, outcome_of, hn] at hsettled
    rwa [Nat.zero_add]
  rw [pickName, pickName, outcome_of, outcome_of, hsame]

/-- A search for a field that fails has tried all candidates of the field, or as many as the cap
allows. -/
theorem attempts_of_search {t : CheckedTemplate} {f : Field} {e : Exhausted} {o' : Occupancy}
    (h : (search t m f).outcome o = (.error e, o')) : e.attempts = min m (t.supply f) := by
  have hsubnet : ∀ {g : Family} {start : Subnet g},
      (pickSubnet m f start).outcome o = (.error e, o') → e.attempts = min m start.walkLength := by
    intro g start hpick
    rcases pickSubnet_outcome m f start o with ⟨s, hs⟩ | hs
    · rw [hs] at hpick
      cases hpick
    · rw [hs] at hpick
      cases hpick
      rfl
  have hname : ∀ {stem : String},
      (pickName m f stem).outcome o = (.error e, o') → e.attempts = min m (nameRoom stem) := by
    intro stem hpick
    rcases pickName_outcome m f stem o with ⟨n, hn⟩ | hn
    · rw [hn] at hpick
      cases hpick
    · rw [hn] at hpick
      cases hpick
      rfl
  cases f with
  | machineCidr => exact hsubnet h
  | machineCidr6 => exact hsubnet h
  | provisioningCidr => exact hsubnet h
  | provisioningCidr6 => exact hsubnet h
  | networkIf => exact hname h
  | secondaryNetworkIf => exact hname h

/-! ## All searches -/

theorem Outlasts.refl (s : Search α) : Outlasts m s s := fun _ _ => rfl

/-- If the whole was not decided by the cap, neither was its first part nor what followed it. -/
theorem Outlasts.bind {s s' : Search α} {k k' : α → Search β} (hs : Outlasts m s s')
    (hk : ∀ v, Outlasts m (k v) (k' v)) : Outlasts m (s >>= k) (s' >>= k') := by
  intro o hsettled
  rw [outcome_bind] at hsettled
  rw [outcome_bind, outcome_bind]
  have hfirst := hs o
  cases hout : s.outcome o with
  | mk r o' =>
      rw [hout] at hsettled hfirst
      cases r with
      | ok v =>
          rw [hfirst trivial]
          exact hk v o' hsettled
      | error e => rw [hfirst hsettled]

theorem allocate_outlasts (t : CheckedTemplate) (hle : m ≤ m') :
    Outlasts m (allocate t m) (allocate t m') := by
  refine (pickSubnet_outlasts hle .machineCidr t.machineCidr).bind fun _ => ?_
  refine (pickSubnet_outlasts hle .machineCidr6 t.machineCidr6).bind fun _ => ?_
  refine (pickSubnet_outlasts hle .provisioningCidr t.provisioningCidr).bind fun _ => ?_
  refine (pickSubnet_outlasts hle .provisioningCidr6 t.provisioningCidr6).bind fun _ => ?_
  refine (pickName_outlasts hle .networkIf t.networkIf.text).bind fun _ => ?_
  refine (pickName_outlasts hle .secondaryNetworkIf t.secondaryNetworkIf.text).bind fun _ => ?_
  exact .refl _

/-- Raising the cap never changes an allocation that succeeds, nor one that fails because the
candidates of a field ran out: the asset or the failure is the same, and so is what is in use
afterwards. -/
theorem allocate_of_higher_cap (t : CheckedTemplate) (o : Occupancy) (hle : m ≤ m') :
    (∀ a o', (allocate t m).outcome o = (.ok a, o') → (allocate t m').outcome o = (.ok a, o')) ∧
      ∀ e o', (allocate t m).outcome o = (.error e, o') → e.attempts < m →
        e.attempts = t.supply e.field ∧ (allocate t m').outcome o = (.error e, o') := by
  have hsame := allocate_outlasts t hle o
  refine ⟨fun a o' hok => ?_, fun e o' herror hbelow => ⟨?_, ?_⟩⟩
  · rw [hok] at hsame
    exact hsame trivial
  · have hrecords := allocate_picks t m o
    rw [herror] at hrecords
    cases hrecords with
    | exhausted a hpicks hfails =>
        have hattempts := attempts_of_search hfails
        omega
  · rw [herror] at hsame
    exact hsame hbelow

/-- Two ranges are left for either short search. -/
def lastRanges : CheckedTemplate where
  machineCidr := ⟨⟨0xFC000000, by decide⟩, 7, by decide⟩
  machineCidr6 := ⟨⟨0xFD000000000000000000000000000000, by decide⟩, 112, by decide⟩
  provisioningCidr := ⟨⟨0xFC000000, by decide⟩, 7, by decide⟩
  provisioningCidr6 := ⟨⟨0xFD010000000000000000000000000000, by decide⟩, 112, by decide⟩
  networkIf := ⟨"br", by decide, by decide, by decide⟩
  secondaryNetworkIf := ⟨"sbr", by decide, by decide, by decide⟩

/-- What is found from there on where nothing is in use. -/
def lastFound : Asset where
  machineCidr := lastRanges.machineCidr
  machineCidr6 := lastRanges.machineCidr6
  provisioningCidr := ⟨⟨0xFE000000, by decide⟩, 7, by decide⟩
  provisioningCidr6 := lastRanges.provisioningCidr6
  networkIf := "br0"
  secondaryNetworkIf := "sbr0"
  allocatedAt := none
  ownerPid := none

/-- The second of the two ranges is in use. -/
def lastTaken : Occupancy := Occupancy.empty.addNetwork (.of lastFound.provisioningCidr)

/-- Two attempts are enough for every field where nothing is in use. Where the last range is, the
second short search runs out of candidates after two attempts of three. -/
theorem allocate_of_higher_cap_lastRanges :
    (allocate lastRanges 4096).outcome .empty =
        (allocate lastRanges 2).outcome .empty ∧
      (allocate lastRanges 2).outcome .empty = (.ok lastFound, .addAsset .empty lastFound) ∧
      (allocate lastRanges 4096).outcome lastTaken = (allocate lastRanges 3).outcome lastTaken ∧
      ((allocate lastRanges 3).outcome lastTaken).1 = .error ⟨.provisioningCidr, 2⟩ := by
  have hfound : (allocate lastRanges 2).outcome .empty =
      (.ok lastFound, .addAsset .empty lastFound) := rfl
  have hfails : (allocate lastRanges 3).outcome lastTaken = (.error ⟨.provisioningCidr, 2⟩,
      lastTaken.including lastFound [.machineCidr, .machineCidr6]) := rfl
  obtain ⟨hok, -⟩ := allocate_of_higher_cap lastRanges .empty (show 2 ≤ 4096 by decide)
  obtain ⟨-, herror⟩ := allocate_of_higher_cap lastRanges lastTaken (show 3 ≤ 4096 by decide)
  refine ⟨?_, hfound, ?_, congrArg Prod.fst hfails⟩
  · rw [hfound, hok _ _ hfound]
  · rw [hfails, (herror _ _ hfails (by decide)).2]

end Allocation

end NetPool
