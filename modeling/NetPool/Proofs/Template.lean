import NetPool.Proofs.Allocation.Recording

/-! # Checked templates

A template is checked exactly if every field is present and usable, and otherwise the first field that
is not is reported. Names made from a checked template are legal names of interfaces. -/

namespace NetPool

/-! ## Stems and names -/

/-- A character of an interface name: a letter or a digit of ASCII, a hyphen or a low line. -/
def IsNameCharacter (c : Char) : Prop :=
  'a' ≤ c ∧ c ≤ 'z' ∨ 'A' ≤ c ∧ c ≤ 'Z' ∨ '0' ≤ c ∧ c ≤ '9' ∨ c = '-' ∨ c = '_'

/-- A text that names may start with. -/
structure IsStem (s : String) : Prop where
  nonempty : 1 ≤ s.utf8ByteSize
  short : s.utf8ByteSize ≤ 14
  legal : ∀ c ∈ s.toList, IsNameCharacter c

/-- What is wrong with a text as a stem. The length is judged before the characters. -/
inductive HasFlaw (s : String) : StemFlaw → Prop
  | empty (h : s.utf8ByteSize = 0) : HasFlaw s .empty
  | tooLong (h : 15 ≤ s.utf8ByteSize) : HasFlaw s .tooLong
  | badCharacters {c : Char} (hnonempty : 1 ≤ s.utf8ByteSize) (hshort : s.utf8ByteSize ≤ 14)
      (hc : c ∈ s.toList) (hbad : ¬ IsNameCharacter c) : HasFlaw s (.badCharacters s)

/-- Decimal digits without leading zeros. -/
structure IsNumeral (cs : List Char) : Prop where
  nonempty : cs ≠ []
  digits : ∀ c ∈ cs, '0' ≤ c ∧ c ≤ '9'
  leading : cs.head? = some '0' → cs = ['0']

/-- A legal name of an interface: a stem with a number after it. -/
structure IsNumbered (stem name : String) : Prop where
  short : name.utf8ByteSize ≤ 15
  legal : ∀ c ∈ name.toList, IsNameCharacter c
  numeral : ∃ digits, name.toList = stem.toList ++ digits ∧ IsNumeral digits

theorem isDigit_iff {c : Char} : c.isDigit = true ↔ '0' ≤ c ∧ c ≤ '9' := by
  rw [Char.isDigit, Bool.and_eq_true, decide_eq_true_eq, decide_eq_true_eq]
  rfl

theorem isNameChar_iff {c : Char} : isNameChar c = true ↔ IsNameCharacter c := by
  have hupper : c.isUpper = true ↔ 'A' ≤ c ∧ c ≤ 'Z' := decide_eq_true_iff
  have hlower : c.isLower = true ↔ 'a' ≤ c ∧ c ≤ 'z' :=
    Bool.and_eq_true_iff.trans (and_congr decide_eq_true_iff decide_eq_true_iff)
  have hletter : c.isAlpha = (c.isUpper || c.isLower) := rfl
  simp only [isNameChar, IsNameCharacter, Char.isAlphanum, hletter, Bool.or_eq_true,
    decide_eq_true_eq, hupper, hlower, isDigit_iff, or_assoc]
  constructor
  · rintro (h | h | h)
    · exact .inr (.inl h)
    · exact .inl h
    · exact .inr (.inr h)
  · rintro (h | h | h)
    · exact .inr (.inl h)
    · exact .inl h
    · exact .inr (.inr h)

theorem Stem.isStem (s : Stem) : IsStem s.text :=
  ⟨s.nonempty, Nat.le_of_lt_succ s.short, fun c hc =>
    isNameChar_iff.mp (List.all_eq_true.mp s.legal c hc)⟩

theorem HasFlaw.not_isStem {s : String} {flaw : StemFlaw} (h : HasFlaw s flaw) : ¬ IsStem s := by
  intro hstem
  have hnonempty := hstem.nonempty
  have hshort := hstem.short
  cases h with
  | empty h => omega
  | tooLong h => omega
  | badCharacters _ _ hc hbad => exact hbad (hstem.legal _ hc)

theorem HasFlaw.unique {s : String} {flaw flaw' : StemFlaw} (h : HasFlaw s flaw)
    (h' : HasFlaw s flaw') : flaw = flaw' := by
  cases h <;> cases h' <;> first | rfl | omega

/-- A text is checked as a stem exactly if it is one, and is otherwise refused for its flaw. -/
theorem Stem.check_cases (s : String) :
    (∃ stem, Stem.check s = .ok stem ∧ stem.text = s) ∨
      ∃ flaw, Stem.check s = .error flaw ∧ HasFlaw s flaw := by
  rw [Stem.check]
  by_cases hnonempty : 0 < s.utf8ByteSize
  · rw [dif_pos hnonempty]
    by_cases hshort : s.utf8ByteSize < maxNameBytes
    · rw [dif_pos hshort]
      by_cases hlegal : s.toList.all isNameChar = true
      · rw [dif_pos hlegal]
        exact .inl ⟨_, rfl, rfl⟩
      · rw [dif_neg hlegal]
        obtain ⟨c, hc, hbad⟩ := List.all_eq_false.mp (Bool.eq_false_iff.mpr hlegal)
        refine .inr ⟨_, rfl, .badCharacters hnonempty (Nat.le_of_lt_succ hshort) hc ?_⟩
        exact fun hname => hbad (isNameChar_iff.mpr hname)
    · rw [dif_neg hshort]
      exact .inr ⟨_, rfl, .tooLong (Nat.le_of_not_lt hshort)⟩
  · rw [dif_neg hnonempty]
    exact .inr ⟨_, rfl, .empty (Nat.eq_zero_of_not_pos hnonempty)⟩

/-! ## Fields -/

/-- What a template says for a field. -/
def Template.value? (t : Template) : (f : Field) → Option f.Value
  | .machineCidr => t.machineCidr
  | .machineCidr6 => t.machineCidr6
  | .provisioningCidr => t.provisioningCidr
  | .provisioningCidr6 => t.provisioningCidr6
  | .networkIf => t.networkIf
  | .secondaryNetworkIf => t.secondaryNetworkIf

/-- What a checked template holds in a field. -/
def CheckedTemplate.value (t : CheckedTemplate) : (f : Field) → f.Value
  | .machineCidr => t.machineCidr
  | .machineCidr6 => t.machineCidr6
  | .provisioningCidr => t.provisioningCidr
  | .provisioningCidr6 => t.provisioningCidr6
  | .networkIf => t.networkIf.text
  | .secondaryNetworkIf => t.secondaryNetworkIf.text

namespace Field

/-- A value may stand in the field: any subnet, or a stem. -/
def Usable : (f : Field) → f.Value → Prop
  | .networkIf, s | .secondaryNetworkIf, s => IsStem s
  | .machineCidr, _ | .machineCidr6, _ | .provisioningCidr, _ | .provisioningCidr6, _ => True

/-- What is wrong with a value in the field. Only names can be wrong. -/
def Flawed : (f : Field) → f.Value → StemFlaw → Prop
  | .networkIf, s, flaw | .secondaryNetworkIf, s, flaw => HasFlaw s flaw
  | .machineCidr, _, _ | .machineCidr6, _, _ | .provisioningCidr, _, _
  | .provisioningCidr6, _, _ => False

theorem Flawed.not_usable {f : Field} {v : f.Value} {flaw : StemFlaw} (h : f.Flawed v flaw) :
    ¬ f.Usable v := by
  cases f with
  | networkIf | secondaryNetworkIf => exact HasFlaw.not_isStem h
  | machineCidr | machineCidr6 | provisioningCidr | provisioningCidr6 => exact h.elim

theorem Flawed.unique {f : Field} {v : f.Value} {flaw flaw' : StemFlaw} (h : f.Flawed v flaw)
    (h' : f.Flawed v flaw') : flaw = flaw' := by
  cases f with
  | networkIf | secondaryNetworkIf => exact HasFlaw.unique h h'
  | machineCidr | machineCidr6 | provisioningCidr | provisioningCidr6 => exact h.elim

theorem earlier_total (f g : Field) : f = g ∨ f ∈ g.earlier ∨ g ∈ f.earlier := by
  cases f <;> cases g <;> decide

end Field

namespace Template

/-- The template has that value in the field, and the value is usable there. -/
def Offers (t : Template) (f : Field) (v : f.Value) : Prop := t.value? f = some v ∧ f.Usable v

/-- What is wrong with the field of a template. -/
inductive Lacks (t : Template) (f : Field) : TemplateError → Prop
  | missing (h : t.value? f = none) : Lacks t f (.missing f)
  | invalid {v : f.Value} {flaw : StemFlaw} (h : t.value? f = some v) (hflaw : f.Flawed v flaw) :
      Lacks t f (.invalid f flaw)

variable {t : Template} {f : Field}

theorem Lacks.not_offers {e : TemplateError} (h : t.Lacks f e) : ¬ ∃ v, t.Offers f v := by
  rintro ⟨v, hvalue, husable⟩
  cases h with
  | missing hnone =>
      rw [hnone] at hvalue
      cases hvalue
  | invalid hsome hflaw =>
      obtain rfl := Option.some.inj (hsome.symm.trans hvalue)
      exact hflaw.not_usable husable

theorem Lacks.unique {e e' : TemplateError} (h : t.Lacks f e) (h' : t.Lacks f e') : e = e' := by
  cases h with
  | missing hnone =>
      cases h' with
      | missing => rfl
      | invalid hsome => cases hnone.symm.trans hsome
  | invalid hsome hflaw =>
      cases h' with
      | missing hnone => cases hnone.symm.trans hsome
      | invalid hsome' hflaw' =>
          obtain rfl := Option.some.inj (hsome.symm.trans hsome')
          rw [hflaw.unique hflaw']

/-- What a check comes to: all values as they stand in the template, or what is wrong with the first
field that does not offer one. -/
inductive Judged (t : Template) : Except TemplateError CheckedTemplate → Prop
  | ok {c : CheckedTemplate} (h : ∀ f, t.Offers f (c.value f)) : Judged t (.ok c)
  | error {e : TemplateError} (f : Field) (hbefore : ∀ g ∈ f.earlier, ∃ v, t.Offers g v)
      (hlacks : t.Lacks f e) : Judged t (.error e)

/-! ## The check -/

theorem require_cases {α : Type} (f : Field) (value : Option α) :
    (∃ a, require f value = .ok a ∧ value = some a) ∨
      require f value = .error (.missing f) ∧ value = none := by
  cases value with
  | none => exact .inr ⟨rfl, rfl⟩
  | some a => exact .inl ⟨a, rfl, rfl⟩

theorem requireStem_cases (f : Field) (value : Option String) :
    (∃ stem, requireStem f value = .ok stem ∧ value = some stem.text) ∨
      (requireStem f value = .error (.missing f) ∧ value = none) ∨
      ∃ s flaw, requireStem f value = .error (.invalid f flaw) ∧ value = some s ∧
        HasFlaw s flaw := by
  cases value with
  | none => exact .inr (.inl ⟨rfl, rfl⟩)
  | some s =>
      have hrequire : requireStem f (some s) = (Stem.check s).mapError (.invalid f) := rfl
      rw [hrequire]
      rcases Stem.check_cases s with ⟨stem, hcheck, htext⟩ | ⟨flaw, hcheck, hflaw⟩
      · exact .inl ⟨stem, by rw [hcheck]; rfl, by rw [htext]⟩
      · exact .inr (.inr ⟨s, flaw, by rw [hcheck]; rfl, rfl, hflaw⟩)

/-- A check goes on with the value of a field that is present, or ends there. -/
theorem require_bind {α β : Type} {f : Field} {value : Option α}
    {k : α → Except TemplateError β} {P : Except TemplateError β → Prop}
    (hmissing : value = none → P (.error (.missing f))) (hok : ∀ a, value = some a → P (k a)) :
    P (require f value >>= k) := by
  rcases require_cases f value with ⟨a, heq, ha⟩ | ⟨heq, hnone⟩
  · rw [heq]
    exact hok a ha
  · rw [heq]
    exact hmissing hnone

theorem requireStem_bind {β : Type} {f : Field} {value : Option String}
    {k : Stem → Except TemplateError β} {P : Except TemplateError β → Prop}
    (hmissing : value = none → P (.error (.missing f)))
    (hinvalid : ∀ s flaw, value = some s → HasFlaw s flaw → P (.error (.invalid f flaw)))
    (hok : ∀ stem : Stem, value = some stem.text → P (k stem)) :
    P (requireStem f value >>= k) := by
  rcases requireStem_cases f value with ⟨stem, heq, hstem⟩ | ⟨heq, hnone⟩ | ⟨s, flaw, heq, hs, hflaw⟩
  · rw [heq]
    exact hok stem hstem
  · rw [heq]
    exact hmissing hnone
  · rw [heq]
    exact hinvalid s flaw hs hflaw

theorem Offers.concat {v : f.Value} (hf : t.Offers f v) {fields : List Field}
    (h : ∀ g ∈ fields, ∃ v, t.Offers g v) : ∀ g ∈ fields ++ [f], ∃ v, t.Offers g v := by
  intro g hg
  rcases List.mem_append.mp hg with hg | hg
  · exact h g hg
  · obtain rfl := List.mem_singleton.mp hg
    exact ⟨v, hf⟩

/-- The fields are checked in order, so that all before the present one offer a value. -/
theorem check_judged (t : Template) : t.Judged t.check := by
  have hfirst : ∀ g ∈ ([] : List Field), ∃ v, t.Offers g v := by simp
  refine require_bind (fun h => .error .machineCidr hfirst (.missing h)) fun v₁ h₁ => ?_
  have o₁ : t.Offers .machineCidr v₁ := ⟨h₁, trivial⟩
  have hbefore₁ := o₁.concat hfirst
  refine require_bind (fun h => .error .machineCidr6 hbefore₁ (.missing h)) fun v₂ h₂ => ?_
  have o₂ : t.Offers .machineCidr6 v₂ := ⟨h₂, trivial⟩
  have hbefore₂ := o₂.concat hbefore₁
  refine require_bind (fun h => .error .provisioningCidr hbefore₂ (.missing h)) fun v₃ h₃ => ?_
  have o₃ : t.Offers .provisioningCidr v₃ := ⟨h₃, trivial⟩
  have hbefore₃ := o₃.concat hbefore₂
  refine require_bind (fun h => .error .provisioningCidr6 hbefore₃ (.missing h)) fun v₄ h₄ => ?_
  have o₄ : t.Offers .provisioningCidr6 v₄ := ⟨h₄, trivial⟩
  have hbefore₄ := o₄.concat hbefore₃
  refine requireStem_bind (fun h => .error .networkIf hbefore₄ (.missing h))
    (fun s flaw hs hflaw => .error .networkIf hbefore₄ (.invalid hs hflaw)) fun stem₅ h₅ => ?_
  have o₅ : t.Offers .networkIf stem₅.text := ⟨h₅, stem₅.isStem⟩
  have hbefore₅ := o₅.concat hbefore₄
  refine requireStem_bind (fun h => .error .secondaryNetworkIf hbefore₅ (.missing h))
    (fun s flaw hs hflaw => .error .secondaryNetworkIf hbefore₅ (.invalid hs hflaw))
    fun stem₆ h₆ => ?_
  have o₆ : t.Offers .secondaryNetworkIf stem₆.text := ⟨h₆, stem₆.isStem⟩
  refine .ok fun f => ?_
  cases f with
  | machineCidr => exact o₁
  | machineCidr6 => exact o₂
  | provisioningCidr => exact o₃
  | provisioningCidr6 => exact o₄
  | networkIf => exact o₅
  | secondaryNetworkIf => exact o₆

/-- Only one field is the first that offers no value. -/
theorem first_unique {f g : Field} {e e' : TemplateError}
    (hf : (∀ g ∈ f.earlier, ∃ v, t.Offers g v) ∧ t.Lacks f e)
    (hg : (∀ f ∈ g.earlier, ∃ v, t.Offers f v) ∧ t.Lacks g e') : e = e' := by
  rcases f.earlier_total g with rfl | hfg | hgf
  · exact hf.2.unique hg.2
  · exact absurd (hg.1 f hfg) hf.2.not_offers
  · exact absurd (hf.1 g hgf) hg.2.not_offers

/-- A check succeeds exactly if all fields offer a value. -/
theorem isOk_check_iff (t : Template) : (∃ c, t.check = .ok c) ↔ ∀ f, ∃ v, t.Offers f v := by
  have hjudged := t.check_judged
  constructor
  · rintro ⟨c, hcheck⟩
    rw [hcheck] at hjudged
    cases hjudged with
    | ok h => exact fun f => ⟨c.value f, h f⟩
  · intro hoffers
    cases hcheck : t.check with
    | ok c => exact ⟨c, rfl⟩
    | error e =>
        rw [hcheck] at hjudged
        cases hjudged with
        | error f _ hlacks => exact absurd (hoffers f) hlacks.not_offers

/-- A check fails exactly with what is wrong with the first field that offers no value. -/
theorem check_eq_error_iff (t : Template) (e : TemplateError) :
    t.check = .error e ↔ ∃ f, (∀ g ∈ f.earlier, ∃ v, t.Offers g v) ∧ t.Lacks f e := by
  have hjudged := t.check_judged
  constructor
  · intro hcheck
    rw [hcheck] at hjudged
    cases hjudged with
    | error f hbefore hlacks => exact ⟨f, hbefore, hlacks⟩
  · rintro ⟨f, hbefore, hlacks⟩
    cases hcheck : t.check with
    | ok c =>
        rw [hcheck] at hjudged
        cases hjudged with
        | ok h => exact absurd ⟨_, h f⟩ hlacks.not_offers
    | error e' =>
        rw [hcheck] at hjudged
        cases hjudged with
        | error g hbefore' hlacks' =>
            rw [first_unique ⟨hbefore, hlacks⟩ ⟨hbefore', hlacks'⟩]

/-- A checked template holds what the template says. -/
theorem value?_of_check {c : CheckedTemplate} (h : t.check = .ok c) (f : Field) :
    t.value? f = some (c.value f) := by
  have hjudged := t.check_judged
  rw [h] at hjudged
  cases hjudged with
  | ok hoffers => exact (hoffers f).1

/-- A template without a value in some field is refused for the first field that is absent or
unusable. -/
theorem exists_lacks (h : t.value? f = none) :
    ∃ g e, t.check = .error e ∧ (∀ g' ∈ g.earlier, ∃ v, t.Offers g' v) ∧ t.Lacks g e := by
  cases hcheck : t.check with
  | ok c =>
      rw [t.value?_of_check hcheck f] at h
      cases h
  | error e =>
      obtain ⟨g, hbefore, hlacks⟩ := (t.check_eq_error_iff e).mp hcheck
      exact ⟨g, e, rfl, hbefore, hlacks⟩

end Template

end NetPool
