import NetPool.Allocation
import NetPool.Proofs.Net.Walk

/-! # First-fit search

A search has one possible outcome: the first free candidate among those that it may try, recorded as
in use, or a failure that says how many there were. -/

namespace NetPool

/-- The first of the candidates that is admitted, among the first `limit` of them. -/
def IsFirst {α : Type} (limit : Nat) (candidate : Nat → Option α) (admits : α → Prop) (a : α) :
    Prop :=
  ∃ k < limit, candidate k = some a ∧ admits a ∧
    ∀ j < k, ∀ b, candidate j = some b → ¬ admits b

/-- None of the first `limit` candidates is admitted. -/
def NoneAdmitted {α : Type} (limit : Nat) (candidate : Nat → Option α) (admits : α → Prop) : Prop :=
  ∀ k < limit, ∀ a, candidate k = some a → ¬ admits a

/-- A search finds the first of the candidates that is admitted, or nothing if there is none. -/
def FindsFirst {ε α : Type} (limit : Nat) (candidate : Nat → Option α) (admits : α → Prop) :
    Except ε α → Prop
  | .ok a => IsFirst limit candidate admits a
  | .error _ => NoneAdmitted limit candidate admits

variable {ε α : Type} {limit : Nat} {candidate next : Nat → Option α} {admits : α → Prop}
  {first : α}

theorem findsFirst_zero {a : α} (h : candidate 0 = some a) (ha : admits a) :
    FindsFirst (limit + 1) candidate admits (.ok a : Except ε α) :=
  ⟨0, Nat.succ_pos limit, h, ha, fun j hj => absurd hj (Nat.not_lt_zero j)⟩

theorem IsFirst.succ {a : α} (h : IsFirst limit next admits a) (hfirst : candidate 0 = some first)
    (hnot : ¬ admits first) (hnext : ∀ k, candidate (k + 1) = next k) :
    IsFirst (limit + 1) candidate admits a := by
  obtain ⟨k, hk, hcandidate, ha, hbefore⟩ := h
  refine ⟨k + 1, Nat.succ_lt_succ hk, (hnext k).trans hcandidate, ha, fun j hj b hb => ?_⟩
  cases j with
  | zero =>
      rw [hfirst] at hb
      rwa [← Option.some.inj hb]
  | succ j => exact hbefore j (Nat.lt_of_succ_lt_succ hj) b ((hnext j).symm.trans hb)

theorem NoneAdmitted.succ (hfirst : candidate 0 = some first) (hnot : ¬ admits first)
    (h : ∀ k < limit, ∀ a, candidate (k + 1) = some a → ¬ admits a) :
    NoneAdmitted (limit + 1) candidate admits := by
  intro k hk a ha
  cases k with
  | zero =>
      rw [hfirst] at ha
      rwa [← Option.some.inj ha]
  | succ k => exact h k (Nat.lt_of_succ_lt_succ hk) a ha

/-- A search that passes over its first candidate finds what the search from the next one finds. -/
theorem FindsFirst.succ {r : Except ε α} (h : FindsFirst limit next admits r)
    (hfirst : candidate 0 = some first) (hnot : ¬ admits first)
    (hnext : ∀ k, candidate (k + 1) = next k) : FindsFirst (limit + 1) candidate admits r := by
  cases r with
  | ok a => exact IsFirst.succ h hfirst hnot hnext
  | error e =>
      apply NoneAdmitted.succ hfirst hnot
      intro k hk a ha
      exact h k hk a ((hnext k).symm.trans ha)

/-- A search may be given a wider limit if nothing is admitted beyond its own. -/
theorem FindsFirst.widen {wider : Nat} {admits' : α → Prop} {r : Except ε α}
    (h : FindsFirst limit candidate admits r) (hle : limit ≤ wider)
    (hsame : ∀ k < limit, ∀ a, candidate k = some a → (admits' a ↔ admits a))
    (hbeyond : ∀ k < wider, limit ≤ k → ∀ a, candidate k = some a → ¬ admits' a) :
    FindsFirst wider candidate admits' r := by
  cases r with
  | ok a =>
      obtain ⟨k, hk, hcandidate, ha, hbefore⟩ := h
      refine ⟨k, Nat.lt_of_lt_of_le hk hle, hcandidate, (hsame k hk a hcandidate).mpr ha, ?_⟩
      intro j hj b hb hadmits
      exact hbefore j hj b hb ((hsame j (Nat.lt_trans hj hk) b hb).mp hadmits)
  | error e =>
      intro k hk a ha hadmits
      by_cases hlt : k < limit
      · exact h k hlt a ha ((hsame k hlt a ha).mp hadmits)
      · exact hbeyond k hk (Nat.le_of_not_lt hlt) a ha hadmits

theorem IsFirst.unique {a b : α} (ha : IsFirst limit candidate admits a)
    (hb : IsFirst limit candidate admits b) : a = b := by
  obtain ⟨i, _, hi, hadmits, hbefore⟩ := ha
  obtain ⟨j, _, hj, hadmits', hbefore'⟩ := hb
  -- Were one of them earlier, it would not be admitted.
  rcases Nat.lt_trichotomy i j with hlt | rfl | hlt
  · exact absurd hadmits (hbefore' i hlt a hi)
  · exact Option.some.inj (hi.symm.trans hj)
  · exact absurd hadmits' (hbefore j hlt b hj)

theorem IsFirst.not_noneAdmitted {a : α} (h : IsFirst limit candidate admits a) :
    ¬ NoneAdmitted limit candidate admits := by
  obtain ⟨k, hk, hcandidate, hadmits, _⟩ := h
  intro hnone
  exact hnone k hk a hcandidate hadmits

namespace FindsFirst

variable {r : Except ε α}

theorem ok_iff (h : FindsFirst limit candidate admits r) {a : α} :
    r = .ok a ↔ IsFirst limit candidate admits a := by
  constructor
  · rintro rfl
    exact h
  · intro ha
    cases r with
    | ok b => exact congrArg Except.ok (IsFirst.unique h ha)
    | error e => exact absurd h ha.not_noneAdmitted

theorem error_iff (h : FindsFirst limit candidate admits r) :
    (∃ e, r = .error e) ↔ NoneAdmitted limit candidate admits := by
  constructor
  · rintro ⟨e, rfl⟩
    exact h
  · intro hnone
    cases r with
    | ok a => exact absurd hnone (IsFirst.not_noneAdmitted h)
    | error e => exact ⟨e, rfl⟩

/-- A search that admits a candidate chooses none that comes later. -/
theorem exists_le (h : FindsFirst limit candidate admits r) {i : Nat} {a : α} (hi : i < limit)
    (hcandidate : candidate i = some a) (ha : admits a) :
    ∃ k ≤ i, ∃ b, candidate k = some b ∧ r = .ok b := by
  cases r with
  | error e => exact absurd ha (h i hi a hcandidate)
  | ok b =>
      obtain ⟨k, _, hk, _, hbefore⟩ := h
      refine ⟨k, ?_, b, hk, rfl⟩
      apply Nat.le_of_not_lt
      intro hlt
      exact hbefore i hlt a hcandidate ha

end FindsFirst

namespace Allocation

variable {o : Occupancy}

theorem outcome_of (s : Occupancy → Except Exhausted α × Occupancy) (o : Occupancy) :
    (Search.of s).outcome o = s o := rfl

/-! ## Subnets -/

/-- The search for a subnet finds the first candidate of the walk that conflicts with nothing. -/
theorem firstFree_findsFirst {f : Family} (o : Occupancy) (left tried : Nat) (s : Subnet f) :
    FindsFirst left s.walk? (fun t => o.conflicts (.of t) = false) (firstFree o left tried s) := by
  induction left generalizing tried s with
  | zero => exact fun k hk => absurd hk (Nat.not_lt_zero k)
  | succ left ih =>
      have hfirst : s.walk? 0 = some s := rfl
      rw [firstFree]
      by_cases hconflict : o.conflicts (.of s) = true
      · rw [if_pos hconflict]
        have hnot : ¬ o.conflicts (.of s) = false := by simp [hconflict]
        cases hnext : s.next? with
        | none =>
            refine NoneAdmitted.succ hfirst hnot ?_
            intro k _ a ha
            rw [Subnet.walk?_succ, hnext] at ha
            cases ha
        | some t =>
            refine (ih (tried + 1) t).succ hfirst hnot ?_
            intro k
            rw [Subnet.walk?_succ, hnext, Option.bind_some]
      · rw [if_neg hconflict]
        exact findsFirst_zero hfirst (Bool.eq_false_iff.mpr hconflict)

/-- A search for a subnet that fails has tried all candidates that it may try. -/
theorem attempts_of_firstFree {f : Family} {left tried n : Nat} {s : Subnet f}
    (h : firstFree o left tried s = .error n) : n = tried + min left s.walkLength := by
  induction left generalizing tried s with
  | zero =>
      obtain rfl := Except.error.inj h
      simp
  | succ left ih =>
      rw [firstFree] at h
      split at h
      · cases hnext : s.next? with
        | none =>
            rw [hnext] at h
            obtain rfl := Except.error.inj h
            rw [Subnet.walkLength_of_next?_none hnext]
            omega
        | some t =>
            rw [hnext] at h
            rw [ih h, Subnet.walkLength_of_next?_some hnext]
            omega
      · cases h

/-! ## Names -/

theorem utf8ByteSize_ofList {cs : List Char} (h : ∀ c ∈ cs, c.utf8Size = 1) :
    (String.ofList cs).utf8ByteSize = cs.length := by
  induction cs with
  | nil => rfl
  | cons c cs ih =>
      rw [String.ofList_cons, String.utf8ByteSize_append, String.utf8ByteSize_singleton,
        h c List.mem_cons_self, ih fun d hd => h d (List.mem_cons_of_mem c hd), List.length_cons]
      omega

theorem utf8Size_of_isDigit {c : Char} (h : c.isDigit = true) : c.utf8Size = 1 := by
  simp only [Char.isDigit, Bool.and_eq_true, decide_eq_true_eq, UInt32.le_iff_toNat_le] at h
  unfold Char.utf8Size
  rw [if_pos]
  rw [UInt32.le_iff_toNat_le]
  exact Nat.le_trans h.2 (by decide)

theorem utf8ByteSize_numbered (stem : String) (i : Nat) :
    (numbered stem i).utf8ByteSize = stem.utf8ByteSize + (Nat.toDigits 10 i).length := by
  rw [numbered, String.utf8ByteSize_append, Numeral.text, Numeral.decimal, utf8ByteSize_ofList]
  exact fun c hc => utf8Size_of_isDigit (Nat.isDigit_of_mem_toDigits (by decide) (by decide) hc)

/-- The number of numbers that fit after the stem. -/
def nameRoom (stem : String) : Nat :=
  if maxNameBytes ≤ stem.utf8ByteSize then 0 else Nat.pow 10 (maxNameBytes - stem.utf8ByteSize)

/-- A name is short enough exactly up to a certain number, so no later name is if one is not. -/
theorem numbered_fits_iff (stem : String) (i : Nat) :
    (numbered stem i).utf8ByteSize ≤ maxNameBytes ↔ i < nameRoom stem := by
  have hpos : 0 < (Nat.toDigits 10 i).length := Nat.length_toDigits_pos
  rw [utf8ByteSize_numbered, nameRoom]
  split
  · rename_i hfull
    simp only [Nat.not_lt_zero, iff_false]
    omega
  · rename_i hroom
    have hdigits : (Nat.toDigits 10 i).length ≤ maxNameBytes - stem.utf8ByteSize ↔
        i < Nat.pow 10 (maxNameBytes - stem.utf8ByteSize) :=
      Nat.length_toDigits_le_iff (by decide) (by omega)
    rw [← hdigits]
    omega

/-- The search for a name finds the first that is not in use among those short enough. -/
theorem firstFreeName_findsFirst (o : Occupancy) (stem : String) (left i : Nat) :
    FindsFirst (min left (nameRoom stem - i)) (fun k => some (numbered stem (i + k)))
      (fun n => o.hasName n = false) (firstFreeName o stem left i) := by
  induction left generalizing i with
  | zero =>
      rw [Nat.zero_min]
      exact fun k hk => absurd hk (Nat.not_lt_zero k)
  | succ left ih =>
      rw [firstFreeName]
      by_cases hlong : (numbered stem i).utf8ByteSize > maxNameBytes
      · have hend : min (left + 1) (nameRoom stem - i) = 0 := by
          have hfits := numbered_fits_iff stem i
          omega
        rw [if_pos hlong, hend]
        exact fun k hk => absurd hk (Nat.not_lt_zero k)
      · have hmore : min (left + 1) (nameRoom stem - i) = min left (nameRoom stem - (i + 1)) + 1 := by
          have hfits := numbered_fits_iff stem i
          omega
        rw [if_neg hlong, hmore]
        by_cases hused : o.hasName (numbered stem i) = true
        · rw [if_pos hused]
          apply (ih (i + 1)).succ rfl (by simp [hused])
          intro k
          simp only [Nat.add_assoc, Nat.add_comm 1 k]
        · rw [if_neg hused]
          exact findsFirst_zero rfl (Bool.eq_false_iff.mpr hused)

/-- A search for a name that fails has tried all names that are short enough. -/
theorem attempts_of_firstFreeName {stem : String} {left i n : Nat}
    (h : firstFreeName o stem left i = .error n) : n = i + min left (nameRoom stem - i) := by
  induction left generalizing i with
  | zero =>
      obtain rfl := Except.error.inj h
      simp
  | succ left ih =>
      have hfits := numbered_fits_iff stem i
      rw [firstFreeName] at h
      split at h
      · obtain rfl := Except.error.inj h
        omega
      · split at h
        · rw [ih h]
          omega
        · cases h

/-! ## Outcomes -/

/-- A search for a subnet records what it chooses, or it fails after as many candidates as the walk
has or as may be tried. -/
theorem pickSubnet_outcome {f : Family} (maxAttempts : Nat) (field : Field) (start : Subnet f)
    (o : Occupancy) :
    (∃ s, (pickSubnet maxAttempts field start).outcome o = (.ok s, o.addNetwork (.of s))) ∨
      (pickSubnet maxAttempts field start).outcome o =
        (.error ⟨field, min maxAttempts start.walkLength⟩, o) := by
  cases hfree : firstFree o maxAttempts 0 start with
  | ok s => exact .inl ⟨s, by rw [pickSubnet, outcome_of, hfree]⟩
  | error n =>
      have hattempts := attempts_of_firstFree hfree
      rw [Nat.zero_add] at hattempts
      exact .inr (by rw [pickSubnet, outcome_of, hfree, hattempts])

/-- A search for a name records what it chooses, or it fails after as many names as fit or as may be
tried. -/
theorem pickName_outcome (maxAttempts : Nat) (field : Field) (stem : String) (o : Occupancy) :
    (∃ n, (pickName maxAttempts field stem).outcome o = (.ok n, o.addName n)) ∨
      (pickName maxAttempts field stem).outcome o =
        (.error ⟨field, min maxAttempts (nameRoom stem)⟩, o) := by
  cases hfree : firstFreeName o stem maxAttempts 0 with
  | ok n => exact .inl ⟨n, by rw [pickName, outcome_of, hfree]⟩
  | error n =>
      have hattempts := attempts_of_firstFreeName hfree
      rw [Nat.zero_add, Nat.sub_zero] at hattempts
      exact .inr (by rw [pickName, outcome_of, hfree, hattempts])

theorem pickSubnet_findsFirst {f : Family} (maxAttempts : Nat) (field : Field) (start : Subnet f)
    (o : Occupancy) :
    FindsFirst maxAttempts start.walk? (fun s => o.conflicts (.of s) = false)
      ((pickSubnet maxAttempts field start).outcome o).1 := by
  have hfinds := firstFree_findsFirst o maxAttempts 0 start
  rw [pickSubnet, outcome_of]
  cases hfree : firstFree o maxAttempts 0 start with
  | ok s => rwa [hfree] at hfinds
  | error n => rwa [hfree] at hfinds

theorem pickName_findsFirst (maxAttempts : Nat) (field : Field) (stem : String) (o : Occupancy) :
    FindsFirst (min maxAttempts (nameRoom stem)) (fun i => some (numbered stem i))
      (fun n => o.hasName n = false) ((pickName maxAttempts field stem).outcome o).1 := by
  have hfinds := firstFreeName_findsFirst o stem maxAttempts 0
  simp only [Nat.zero_add, Nat.sub_zero] at hfinds
  rw [pickName, outcome_of]
  cases hfree : firstFreeName o stem maxAttempts 0 with
  | ok n => rwa [hfree] at hfinds
  | error n => rwa [hfree] at hfinds

/-- A search that succeeds has recorded what it chose. -/
theorem outcome_of_ok {outcome : Except Exhausted α × Occupancy} {record : α → Occupancy}
    {failure : Exhausted} {a : α}
    (houtcome : (∃ a, outcome = (.ok a, record a)) ∨ outcome = (.error failure, o))
    (hok : outcome.1 = .ok a) : outcome = (.ok a, record a) := by
  rcases houtcome with ⟨b, rfl⟩ | rfl
  · rw [Except.ok.inj hok]
  · cases hok

/-- What a search finds, what it records then, and how it fails, determine its outcomes. -/
theorem outcome_iff {outcome : Except Exhausted α × Occupancy} {record : α → Occupancy}
    {failure : Exhausted} (hfinds : FindsFirst limit candidate admits outcome.1)
    (houtcome : (∃ a, outcome = (.ok a, record a)) ∨ outcome = (.error failure, o)) :
    (∀ a o', outcome = (.ok a, o') ↔ IsFirst limit candidate admits a ∧ o' = record a) ∧
      ∀ e o', outcome = (.error e, o') ↔
        NoneAdmitted limit candidate admits ∧ e = failure ∧ o' = o := by
  rcases houtcome with ⟨a, rfl⟩ | rfl
  · refine ⟨fun b o' => ?_, fun e o' => ?_⟩
    · rw [← hfinds.ok_iff, Prod.mk.injEq]
      constructor
      · rintro ⟨hb, rfl⟩
        exact ⟨hb, congrArg record (Except.ok.inj hb)⟩
      · rintro ⟨hb, rfl⟩
        exact ⟨hb, congrArg record (Except.ok.inj hb)⟩
    · simp [← hfinds.error_iff]
  · refine ⟨fun b o' => ?_, fun e o' => ?_⟩
    · simp [← hfinds.ok_iff]
    · simp [← hfinds.error_iff, eq_comm]

/-- A subnet is chosen exactly if it is the first of the walk that conflicts with nothing in use. It
is returned as the walk has it and recorded without host bits. A failure says how many candidates
were tried, as many as the walk has or as may be tried, and records nothing. -/
theorem pickSubnet_iff_first {f : Family} (maxAttempts : Nat) (field : Field) (start : Subnet f)
    (o : Occupancy) :
    (∀ s o', (pickSubnet maxAttempts field start).outcome o = (.ok s, o') ↔
        IsFirst maxAttempts start.walk? (fun s => o.conflicts (.of s) = false) s ∧
          o' = { o with networks := o.networks.insert (AnySubnet.of s).masked }) ∧
      (∀ e o', (pickSubnet maxAttempts field start).outcome o = (.error e, o') ↔
        NoneAdmitted maxAttempts start.walk? (fun s => o.conflicts (.of s) = false) ∧
          e = ⟨field, min maxAttempts start.walkLength⟩ ∧ o' = o) ∧
      ∀ k, (start.walk? k).isSome = true ↔ k < start.walkLength := by
  have hfinds := pickSubnet_findsFirst maxAttempts field start o
  obtain ⟨hok, herror⟩ := outcome_iff hfinds (pickSubnet_outcome maxAttempts field start o)
  exact ⟨hok, herror, fun k => Subnet.isSome_walk?_iff_lt⟩

/-- A name is chosen exactly if its number is the first, among those that fit after the stem, whose
name is not in use, and it is recorded. A failure says how many names were tried, all that fit or as
many as may be tried, and records nothing. No name after the first that is too long would fit. -/
theorem pickName_iff_first (maxAttempts : Nat) (field : Field) (stem : String) (o : Occupancy) :
    (∀ n o', (pickName maxAttempts field stem).outcome o = (.ok n, o') ↔
        IsFirst (min maxAttempts (nameRoom stem)) (fun i => some (numbered stem i))
            (fun n => o.hasName n = false) n ∧
          o' = { o with names := o.names.insert n }) ∧
      (∀ e o', (pickName maxAttempts field stem).outcome o = (.error e, o') ↔
        NoneAdmitted (min maxAttempts (nameRoom stem)) (fun i => some (numbered stem i))
            (fun n => o.hasName n = false) ∧
          e = ⟨field, min maxAttempts (nameRoom stem)⟩ ∧ o' = o) ∧
      (∀ i, (numbered stem i).utf8ByteSize ≤ maxNameBytes ↔ i < nameRoom stem) ∧
      ∀ n o', (pickName maxAttempts field stem).outcome o = (.ok n, o') →
        n.utf8ByteSize ≤ maxNameBytes := by
  have hfinds := pickName_findsFirst maxAttempts field stem o
  obtain ⟨hok, herror⟩ := outcome_iff hfinds (pickName_outcome maxAttempts field stem o)
  refine ⟨hok, herror, numbered_fits_iff stem, ?_⟩
  intro n o' h
  obtain ⟨⟨i, hi, hn, _⟩, _⟩ := (hok n o').mp h
  obtain rfl := Option.some.inj hn
  exact (numbered_fits_iff stem i).mpr (Nat.lt_of_lt_of_le hi (Nat.min_le_right _ _))

/-- One digit fits after fourteen letters, and all but the last are in use. -/
def lastDigit : Occupancy :=
  ((List.range 9).map (numbered "abcdefghijklmn")).foldl Occupancy.addName .empty

theorem pickName_iff_first_lastDigit :
    (pickName 4096 .networkIf "abcdefghijklmn").outcome lastDigit =
        (.ok "abcdefghijklmn9", lastDigit.addName "abcdefghijklmn9") ∧
      "abcdefghijklmn9".utf8ByteSize ≤ maxNameBytes := by
  have hok : (pickName 4096 .networkIf "abcdefghijklmn").outcome lastDigit =
      (.ok "abcdefghijklmn9", lastDigit.addName "abcdefghijklmn9") := rfl
  obtain ⟨_, _, _, hshort⟩ := pickName_iff_first 4096 .networkIf "abcdefghijklmn" lastDigit
  exact ⟨hok, hshort _ _ hok⟩

end Allocation

end NetPool
