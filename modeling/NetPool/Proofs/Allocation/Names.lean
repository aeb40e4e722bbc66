import NetPool.Proofs.Template
import NetPool.Proofs.Text.Numeral

/-! # Names of bridges

What a checked template has for a stem leaves room for one digit, so that every name that is chosen is
a legal one, and the search for a name fails only if the very first is taken. -/

namespace NetPool

namespace Allocation

variable {c : CheckedTemplate} {m : Nat} {o : Occupancy} {field : Field}

theorem isNumeral_decimal (n : Nat) : IsNumeral (Numeral.decimal n) where
  nonempty := Nat.toDigits_ne_nil
  digits _ hd := isDigit_iff.mp (Nat.isDigit_of_mem_toDigits (by decide) (by decide) hd)
  leading hzero := by
    rcases Nat.eq_zero_or_pos n with rfl | hpos
    · rfl
    · exact absurd hzero (Numeral.head?_toDigits_ne_zero (by decide) (by decide) hpos)

theorem isNumbered_numbered {stem : Stem} {i : Nat} (hi : i < nameRoom stem.text) :
    IsNumbered stem.text (numbered stem.text i) where
  short := (numbered_fits_iff stem.text i).mpr hi
  legal := by
    intro d hd
    rw [numbered, String.toList_append, List.mem_append] at hd
    rcases hd with hd | hd
    · exact stem.isStem.legal d hd
    · rw [Numeral.text, String.toList_ofList] at hd
      exact .inr (.inr (.inl ((isNumeral_decimal i).digits d hd)))
  numeral := ⟨Numeral.decimal i, by rw [numbered, String.toList_append, Numeral.text,
    String.toList_ofList], isNumeral_decimal i⟩

/-- After a stem there is room for the number zero. -/
theorem nameRoom_pos (stem : Stem) : 0 < nameRoom stem.text := by
  rw [← numbered_fits_iff, utf8ByteSize_numbered]
  exact stem.short

theorem isNumbered_of_pickName {stem : Stem} {n : String} {o' : Occupancy}
    (h : (pickName m field stem.text).outcome o = (.ok n, o')) : IsNumbered stem.text n := by
  have hfinds := pickName_findsFirst m field stem.text o
  rw [h] at hfinds
  obtain ⟨i, hi, hn, -⟩ := hfinds
  obtain rfl := Option.some.inj hn
  exact isNumbered_numbered (Nat.lt_of_lt_of_le hi (Nat.min_le_right _ _))

/-- A search for a name that fails has seen that the first one is in use. -/
theorem first_mem_of_pickName {stem : Stem} {e : Exhausted} {o' : Occupancy} (hm : 1 ≤ m)
    (h : (pickName m field stem.text).outcome o = (.error e, o')) : stem.text ++ "0" ∈ o.names := by
  have hfinds := pickName_findsFirst m field stem.text o
  rw [h] at hfinds
  have hused := hfinds 0 (Nat.lt_min.mpr ⟨hm, nameRoom_pos stem⟩) (stem.text ++ "0") rfl
  rw [Bool.not_eq_false] at hused
  exact SortedSet.contains_iff.mp hused

/-- What was chosen for the subnets is of no account for the search for the primary name. -/
theorem names_before_primary (o : Occupancy) (a : Asset) :
    (o.including a (Field.earlier .networkIf)).names = o.names := rfl

theorem names_before_secondary (o : Occupancy) (a : Asset) :
    (o.including a (Field.earlier .secondaryNetworkIf)).names = o.names.insert a.networkIf := rfl

theorem isNumbered_of_allocate {a : Asset} {o' : Occupancy}
    (h : (allocate c m).outcome o = (.ok a, o')) :
    IsNumbered c.networkIf.text a.networkIf ∧
      IsNumbered c.secondaryNetworkIf.text a.secondaryNetworkIf := by
  have hrecords := allocate_picks c m o
  rw [h] at hrecords
  cases hrecords with
  | ok _ hpicks =>
      exact ⟨isNumbered_of_pickName (hpicks .networkIf),
        isNumbered_of_pickName (hpicks .secondaryNetworkIf)⟩

end Allocation

open Allocation

/-- A template is checked exactly if it offers a usable value in all six fields, which are then those
of the checked template; otherwise the first field that offers none is reported, as missing if it is
absent and as invalid if not. All names that are allocated from it are stems with numbers, and legal;
a search for a name that may make an attempt at all fails only if the stem with a zero is taken. -/
theorem Template.check_exact (t : Template) :
    ((∃ c, t.check = .ok c) ↔ ∀ f, ∃ v, t.Offers f v) ∧
      (∀ e, t.check = .error e ↔ ∃ f, (∀ g ∈ f.earlier, ∃ v, t.Offers g v) ∧ t.Lacks f e) ∧
      ∀ c, t.check = .ok c → (∀ f, t.value? f = some (c.value f)) ∧ ∀ (m : Nat) (o : Occupancy),
        (∀ a o', (allocate c m).outcome o = (.ok a, o') →
          IsNumbered c.networkIf.text a.networkIf ∧
            IsNumbered c.secondaryNetworkIf.text a.secondaryNetworkIf) ∧
        ∀ e o', (allocate c m).outcome o = (.error e, o') → 1 ≤ m →
          (e.field = .networkIf → c.networkIf.text ++ "0" ∈ o.names) ∧
          (e.field = .secondaryNetworkIf →
            ∃ a, (∀ f ∈ Field.earlier .secondaryNetworkIf, Picks c m o a f) ∧
              (c.secondaryNetworkIf.text ++ "0" ∈ o.names ∨
                c.secondaryNetworkIf.text ++ "0" = a.networkIf)) := by
  refine ⟨t.isOk_check_iff, t.check_eq_error_iff, ?_⟩
  intro c hcheck
  refine ⟨value?_of_check hcheck, fun m o => ⟨fun a o' => isNumbered_of_allocate, ?_⟩⟩
  intro e o' herror hm
  have hrecords := allocate_picks c m o
  rw [herror] at hrecords
  cases hrecords with
  | exhausted a hpicks hfails =>
      obtain ⟨field, attempts⟩ := e
      constructor
      · rintro rfl
        have hused := first_mem_of_pickName hm hfails
        rwa [names_before_primary] at hused
      · rintro rfl
        have hused := first_mem_of_pickName hm hfails
        rw [names_before_secondary, SortedSet.mem_insert] at hused
        exact ⟨a, hpicks, hused.symm⟩

/-- The stem of both names leaves room for one digit only. -/
def crampedStem : Stem := ⟨"abcdefghijklmn", by decide, by decide, by decide⟩

/-- The standard template with that stem. -/
def cramped : Template where
  machineCidr := Template.standard.machineCidr
  machineCidr6 := Template.standard.machineCidr6
  provisioningCidr := Template.standard.provisioningCidr
  provisioningCidr6 := Template.standard.provisioningCidr6
  networkIf := some crampedStem.text
  secondaryNetworkIf := some crampedStem.text

theorem standard_length_le : 24 ≤ Family.v4.width := by decide

def crampedChecked : CheckedTemplate where
  machineCidr := ⟨⟨0xC0A87F00, by decide⟩, 24, standard_length_le⟩
  machineCidr6 := ⟨⟨0x10010DB8000000000000000000000000, by decide⟩, 120, by decide⟩
  provisioningCidr := ⟨⟨0xC0A89100, by decide⟩, 24, standard_length_le⟩
  provisioningCidr6 := ⟨⟨0x30010DB8000000000000000000000000, by decide⟩, 120, by decide⟩
  networkIf := crampedStem
  secondaryNetworkIf := crampedStem

/-- What is found from there on where nothing is in use. -/
def crampedFound : Asset where
  machineCidr := crampedChecked.machineCidr
  machineCidr6 := crampedChecked.machineCidr6
  provisioningCidr := crampedChecked.provisioningCidr
  provisioningCidr6 := crampedChecked.provisioningCidr6
  networkIf := "abcdefghijklmn0"
  secondaryNetworkIf := "abcdefghijklmn1"
  allocatedAt := none
  ownerPid := none

/-- With two attempts the second name gets the number one. With one attempt it gets none, since zero
has just been given to the first name. -/
theorem Template.check_exact_cramped :
    cramped.check = .ok crampedChecked ∧
      (∀ f, cramped.value? f = some (crampedChecked.value f)) ∧
      ((allocate crampedChecked 2).outcome .empty).1 = .ok crampedFound ∧
      IsNumbered crampedStem.text "abcdefghijklmn1" ∧
      ((allocate crampedChecked 1).outcome .empty).1 = .error ⟨.secondaryNetworkIf, 1⟩ ∧
      ∃ a, (∀ f ∈ Field.earlier .secondaryNetworkIf, Picks crampedChecked 1 .empty a f) ∧
        ("abcdefghijklmn0" ∈ Occupancy.empty.names ∨ "abcdefghijklmn0" = a.networkIf) := by
  have hcheck : cramped.check = .ok crampedChecked := rfl
  have hok : (allocate crampedChecked 2).outcome .empty =
      (.ok crampedFound, .addAsset .empty crampedFound) := rfl
  have herror : (allocate crampedChecked 1).outcome .empty =
      (.error ⟨.secondaryNetworkIf, 1⟩,
        Occupancy.including .empty crampedFound (Field.earlier .secondaryNetworkIf)) := rfl
  obtain ⟨-, -, hchecked⟩ := cramped.check_exact
  obtain ⟨hvalues, hnames⟩ := hchecked crampedChecked hcheck
  obtain ⟨-, hsecond⟩ := (hnames 2 .empty).1 _ _ hok
  obtain ⟨-, hzero⟩ := (hnames 1 .empty).2 _ _ herror (Nat.le_refl 1)
  exact ⟨hcheck, hvalues, congrArg Prod.fst hok, hsecond, congrArg Prod.fst herror, hzero rfl⟩
end NetPool
