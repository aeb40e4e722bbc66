import NetPool.Ledger
import NetPool.Proofs.Json.Reader
import NetPool.Proofs.Net.Notation
import NetPool.Proofs.Time.Notation

/-! # Written ledgers

The content that is written for a list of assets lists exactly these assets, stamps included. -/

namespace NetPool

namespace Json

open Text

/-! ## Values -/

theorem readString_writeText (expected : String) (s rest : List Char) :
    readString expected (writeText s ++ rest) = .ok (String.ofList s, rest) := by
  rw [writeText_append, readString, skipGap_cons_of_not (by decide)]
  simp [readText_flatMap_writtenChar]

theorem readWritten_writeText {α : Type} {expected : String} {parse : String → Except Fault α}
    {s : String} {a : α} (h : parse s = .ok a) (rest : List Char) :
    readWritten expected parse (writeText s.toList ++ rest) = .ok (a, rest) := by
  rw [readWritten, readString_writeText]
  simp [h]

theorem readSubnet_text {f : Family} (s : Subnet f) (rest : List Char) :
    readSubnet f (writeText s.text.toList ++ rest) = .ok (s, rest) :=
  readWritten_writeText (by simp [Subnet.ofText?_text]) rest

theorem readInstant_text (t : Instant) (rest : List Char) :
    readInstant (writeText t.text.toList ++ rest) = .ok (t, rest) :=
  readWritten_writeText (by rw [Instant.ofText?_text]; rfl) rest

theorem readAnyString_text (s : String) (rest : List Char) :
    readAnyString (writeText s.toList ++ rest) = .ok (s, rest) := by
  rw [readAnyString, readString_writeText, String.ofList_toList]

theorem readUInt32_number (p : UInt32) {rest : List Char} (hrest : FollowsValue rest) :
    readUInt32 (Numeral.decimal p.toNat ++ rest) = .ok (p, rest) := by
  have hlt : p.toNat < 0x100000000 := p.toNat_lt
  rw [readUInt32, readNatural_decimal hlt (by decide) hrest]
  simp

/-! ## Fields -/

/-- A reader that passes over a blank in front. -/
def PassesBlank {α : Type} (read : Reader α) : Prop := ∀ cs, read (' ' :: cs) = read cs

theorem passesBlank_readString (expected : String) : PassesBlank (readString expected) := by
  intro cs
  simp [readString]

theorem passesBlank_readWritten {α : Type} (expected : String) (parse : String → Except Fault α) :
    PassesBlank (readWritten expected parse) := by
  intro cs
  simp [readWritten, passesBlank_readString expected cs]

theorem passesBlank_readNullable {α : Type} (read : Reader α) :
    PassesBlank (readNullable read) := by
  intro cs
  simp [readNullable]

/-- A value that starts with a quote or a digit is not null. -/
theorem readNullable_cons {α : Type} {read : Reader α} {c : Char} {cs rest : List Char} {a : α}
    (hgap : isGap c = false) (hnull : c ≠ 'n') (h : read (c :: cs) = .ok (a, rest)) :
    readNullable read (c :: cs) = .ok (some a, rest) := by
  rw [readNullable, skipGap_cons_of_not hgap]
  split
  · rename_i heq
    exact absurd (List.cons.inj heq).1 hnull
  · rw [h]
    rfl

theorem field_read {ρ α : Type} {name : String} {required : Bool} {read : Reader α}
    {store : ρ → α → ρ} {parts : ρ} {cs rest : List Char} {a : α} (hblank : PassesBlank read)
    (h : read cs = .ok (a, rest)) :
    (field name required read store).read parts (' ' :: cs) = .ok (store parts a, rest) := by
  change Result.map _ (read (' ' :: cs)) = _
  rw [hblank, h]
  rfl

end Json

namespace Asset

open Json

/-! ## Assets -/

/-- All parts of an asset. -/
def parts (a : Asset) : Parts where
  machineCidr := some a.machineCidr
  machineCidr6 := some a.machineCidr6
  provisioningCidr := some a.provisioningCidr
  provisioningCidr6 := some a.provisioningCidr6
  networkIf := some a.networkIf
  secondaryNetworkIf := some a.secondaryNetworkIf
  allocatedAt := a.allocatedAt
  ownerPid := a.ownerPid

theorem finish_parts (a : Asset) : a.parts.finish = .ok a := rfl

theorem writeText_cons (s : List Char) : writeText s = '"' :: (s.flatMap writtenChar ++ ['"']) := by
  simp [writeText]

theorem readNullable_instant (t : Instant) (rest : List Char) :
    readNullable readInstant (writeText t.text.toList ++ rest) = .ok (some t, rest) := by
  have hread := readInstant_text t rest
  rw [writeText_cons, List.cons_append] at hread ⊢
  exact readNullable_cons (by decide) (by decide) hread

theorem readNullable_number (p : UInt32) {rest : List Char} (hrest : FollowsValue rest) :
    readNullable readUInt32 (Numeral.decimal p.toNat ++ rest) = .ok (some p, rest) := by
  have hread := readUInt32_number p hrest
  cases hcs : Numeral.decimal p.toNat with
  | nil => exact absurd hcs Nat.toDigits_ne_nil
  | cons c cs =>
      have hmem : c ∈ Numeral.decimal p.toNat := hcs ▸ List.mem_cons_self
      have hc : Numeral.isDigit 10 c = true :=
        Numeral.isDigit_of_mem_toDigits (by decide) (by decide) hmem
      rw [hcs, List.cons_append] at hread
      refine readNullable_cons (isGap_of_isDigit hc) ?_ hread
      rintro rfl
      exact absurd hc (by decide)

/-- A process that is written is read back after all other members. -/
theorem gathers_ownerPid {seen : List String} {parts : Parts} (hseen : ownerPidKey ∉ seen)
    (hnone : parts.ownerPid = none) (pid? : Option UInt32) :
    Gathers recordReader seen parts
      (pid?.toList.map fun p => (ownerPidKey, .number p.toNat))
      { parts with ownerPid := pid? } := by
  cases pid? with
  | none =>
      have hsame : { parts with ownerPid := none } = parts := by rw [← hnone]
      rw [hsame]
      exact .nil
  | some p =>
      refine .cons rfl hseen (fun rest hrest => ?_) .nil
      exact field_read (passesBlank_readNullable _) (readNullable_number p hrest)

/-- The stamps that are written are read back after the six fields. -/
theorem gathers_stamps {seen : List String} {parts : Parts} (hat : allocatedAtKey ∉ seen)
    (hpid : ownerPidKey ∉ seen) (hatNone : parts.allocatedAt = none)
    (hpidNone : parts.ownerPid = none) (at? : Option Instant) (pid? : Option UInt32) :
    Gathers recordReader seen parts
      ((at?.toList.map fun t => (allocatedAtKey, .text t.text)) ++
        (pid?.toList.map fun p => (ownerPidKey, .number p.toNat)))
      { parts with allocatedAt := at?, ownerPid := pid? } := by
  cases at? with
  | none =>
      have hsame : { parts with allocatedAt := none, ownerPid := pid? } =
          { parts with ownerPid := pid? } := by rw [← hatNone]
      rw [hsame]
      exact gathers_ownerPid hpid hpidNone pid?
  | some t =>
      have hnew : ownerPidKey ∉ allocatedAtKey :: seen := by
        intro h
        rcases List.mem_cons.mp h with h | h
        · exact absurd h (by decide)
        · exact hpid h
      have hmore := @gathers_ownerPid _ { parts with allocatedAt := some t } hnew hpidNone pid?
      refine .cons rfl hat (fun rest _ => ?_) hmore
      exact field_read (passesBlank_readNullable _) (readNullable_instant t rest)

/-- The written members of an asset give all of its parts. -/
theorem gathers_members (a : Asset) :
    Gathers recordReader [] recordReader.start a.members a.parts := by
  refine .cons rfl (by decide) (fun rest _ => field_read (passesBlank_readWritten _ _)
    (readSubnet_text a.machineCidr rest)) ?_
  refine .cons rfl (by decide) (fun rest _ => field_read (passesBlank_readWritten _ _)
    (readSubnet_text a.machineCidr6 rest)) ?_
  refine .cons rfl (by decide) (fun rest _ => field_read (passesBlank_readWritten _ _)
    (readSubnet_text a.provisioningCidr rest)) ?_
  refine .cons rfl (by decide) (fun rest _ => field_read (passesBlank_readWritten _ _)
    (readSubnet_text a.provisioningCidr6 rest)) ?_
  refine .cons rfl (by decide) (fun rest _ => field_read (passesBlank_readString _)
    (readAnyString_text a.networkIf rest)) ?_
  refine .cons rfl (by decide) (fun rest _ => field_read (passesBlank_readString _)
    (readAnyString_text a.secondaryNetworkIf rest)) ?_
  exact gathers_stamps (by decide) (by decide) rfl rfl a.allocatedAt a.ownerPid

theorem readsBack_members (as : List Asset) :
    ReadsBack recordReader.read (fun a => writePretty 1 a.members) as where
  opens _ _ := ⟨_, writeLines_cons 1 '{' '}' _ _⟩
  reads _ _ rest := read_writePretty (gathers_members _) (finish_parts _) 1 rest

/-- A written list of assets is read back, also if a line feed follows. -/
theorem listOfJson_listJson (as : List Asset) : listOfJson (listJson as ++ "\n") = .ok as := by
  have hread := readList_writeLines (readsBack_members as) ['\n']
  have htext : (listJson as ++ "\n").toList =
      writeLines 0 '[' ']' (as.map fun a => writePretty 1 a.members) ++ ['\n'] := by
    simp [listJson, writePrettyList, Function.comp_def]
  rw [listOfJson, htext, parse, hread]
  simp [skipGap, isGap]

end Asset

namespace Ledger

open Json

/-- What is written for the entries lists these entries. -/
theorem decode_encode (es : List Asset) : decode (encode es) = .ok es := by
  have hbytes : String.fromUTF8? (encode es) = some (Asset.listJson es ++ "\n") := by
    rw [encode, String.fromUTF8?, String.toUTF8_eq_toByteArray, dif_pos (String.isValidUTF8 _)]
    rfl
  have hopens : ∃ cs, (Asset.listJson es ++ "\n").toList = '[' :: cs := by
    cases es with
    | nil => exact ⟨_, rfl⟩
    | cons e es =>
        rw [String.toList_append, Asset.listJson, String.toList_ofList, writePrettyList,
          List.map_cons, List.map_cons, writeLines_cons, List.cons_append]
        exact ⟨_, rfl⟩
  have hblank : (Asset.listJson es ++ "\n").toList.all Text.isBlank = false := by
    obtain ⟨cs, hcs⟩ := hopens
    rw [hcs]
    rfl
  unfold decode
  simp only [hbytes, hblank, Asset.listOfJson_listJson]
  rfl

end Ledger

end NetPool
