import NetPool.Proofs.Json.Torn
import NetPool.Proofs.Ledger.RoundTrip
import NetPool.Proofs.Text.Bytes

/-! # Torn ledgers

A ledger that was written only in part is not read as a shorter one. Only where nothing was written, or
all but the last line feed, does it load. -/

namespace NetPool

namespace Text

/-! ## Parts of encoded texts -/

theorem isValidUTF8_of_append {s : String} {b : ByteArray}
    (h : (s.toByteArray ++ b).IsValidUTF8) : b.IsValidUTF8 := by
  obtain ⟨cs, rfl⟩ := s.exists_eq_ofList
  rw [String.toByteArray_ofList] at h
  induction cs with
  | nil => simpa using h
  | cons c cs ih =>
      rw [← List.singleton_append, List.utf8Encode_append, ByteArray.append_assoc] at h
      exact ih (ByteArray.isValidUTF8_utf8Encode_singleton_append_iff.mp h)

/-- What is left of the bytes of a text, after those of another one, are those of the rest. -/
theorem exists_rest_of_append {s t : String} {b : ByteArray} (h : s.toUTF8 ++ b = t.toUTF8) :
    ∃ rest : String, b = rest.toUTF8 ∧ t = s ++ rest := by
  simp only [String.toUTF8_eq_toByteArray] at h ⊢
  have hvalid : b.IsValidUTF8 := isValidUTF8_of_append (s := s) (h ▸ t.isValidUTF8)
  refine ⟨String.fromUTF8 b hvalid, rfl, String.toByteArray_inj.mp ?_⟩
  rw [String.toByteArray_append]
  exact h.symm

theorem fromUTF8?_eq_none {b : ByteArray} (h : ∀ s : String, b ≠ s.toUTF8) :
    String.fromUTF8? b = none := by
  rw [String.fromUTF8?]
  split
  · rename_i hvalid
    exact absurd rfl (h (String.fromUTF8 b hvalid))
  · rfl

end Text

namespace Asset

open Json

theorem extends_field {ρ α : Type} {name : String} {required : Bool} {read : Reader α}
    {store : ρ → α → ρ} (h : Extends read) (parts : ρ) :
    Extends ((field name required read store).read parts) :=
  h.map (store parts)

theorem closes_recordReader : Closes recordReader.read := by
  have hsubnet : ∀ f, Extends (readSubnet f) := fun f => (closes_readWritten _ _).extends
  have hstring : Extends readAnyString := (closes_readString _).extends
  have hinstant : Extends readInstant := (closes_readWritten _ _).extends
  have hpid : Extends readUInt32 := (extends_readNatural _ _).map _
  refine RecordReader.closes_read fun f hf => ?_
  simp only [recordReader, List.mem_cons, List.not_mem_nil, or_false] at hf
  rcases hf with rfl | rfl | rfl | rfl | rfl | rfl | rfl | rfl
  · exact extends_field (hsubnet .v4)
  · exact extends_field (hsubnet .v6)
  · exact extends_field (hsubnet .v4)
  · exact extends_field (hsubnet .v6)
  · exact extends_field hstring
  · exact extends_field hstring
  · exact extends_field (extends_readNullable hinstant)
  · exact extends_field (extends_readNullable hpid)

theorem readList_listJson (es : List Asset) :
    readList recordReader.read (listJson es).toList = .ok (es, []) := by
  have hread := readList_writeLines (readsBack_members es) []
  rw [List.append_nil] at hread
  rw [listJson, String.toList_ofList, writePrettyList, List.map_map]
  exact hread

/-- A part of a written list that stops short of its end is none. -/
theorem listOfJson_torn {es : List Asset} {s : String} {ext : List Char}
    (h : s.toList ++ ext = (listJson es).toList) (hext : ext ≠ []) :
    ∃ e, listOfJson s = .error e := by
  have hwhole := readList_listJson es
  rw [← h] at hwhole
  exact parse_torn (closes_readList closes_recordReader.extends) hwhole hext

end Asset

namespace Ledger

open Json Text

theorem listJson_opens (es : List Asset) : ∃ cs, (Asset.listJson es).toList = '[' :: cs := by
  rw [Asset.listJson, String.toList_ofList, writePrettyList]
  cases es with
  | nil => exact ⟨_, rfl⟩
  | cons e es =>
      rw [List.map_cons, List.map_cons, writeLines_cons]
      exact ⟨_, rfl⟩

theorem not_blank_of_start {es : List Asset} {s : String} {ext : List Char}
    (h : s.toList ++ ext = (Asset.listJson es).toList) (hs : s.toList ≠ []) :
    s.toList.all Text.isBlank = false := by
  obtain ⟨c, cs, hcs⟩ := List.exists_cons_of_ne_nil hs
  obtain ⟨cs', hopens⟩ := listJson_opens es
  rw [hcs, hopens] at h
  obtain rfl := (List.cons.inj h).1
  rw [hcs]
  rfl

theorem decode_toUTF8 {es : List Asset} {s : String} {ext : List Char}
    (h : s.toList ++ ext = (Asset.listJson es).toList) (hs : s.toList ≠ []) :
    decode s.toUTF8 = (Asset.listOfJson s).mapError .malformed := by
  rw [decode, fromUTF8?_toUTF8]
  simp only [not_blank_of_start h hs, Bool.false_eq_true, if_false]

/-- Without its last line feed, what is written for the entries lists them all the same. -/
theorem decode_unended {es : List Asset} {b : ByteArray} (h : b ++ "\n".toUTF8 = encode es) :
    decode b = .ok es := by
  rw [encode, String.toUTF8_eq_toByteArray, String.toUTF8_eq_toByteArray, String.toByteArray_append,
    ByteArray.append_left_inj, ← String.toUTF8_eq_toByteArray] at h
  obtain ⟨cs, hopens⟩ := listJson_opens es
  rw [h, decode_toUTF8 (List.append_nil _) (hopens ▸ List.cons_ne_nil _ _), Asset.listOfJson, parse,
    Asset.readList_listJson]
  rfl

/-- A part of what is written for entries cannot be read, unless nothing or just the last line feed is
left out: it is no list, or it ends within a character. -/
theorem decode_torn {es : List Asset} {b tail : ByteArray} (hsplit : b ++ tail = encode es)
    (hb : b ≠ .empty) (htail : tail ≠ .empty) (hfeed : tail ≠ "\n".toUTF8) :
    (∃ s fault, b = String.toUTF8 s ∧ decode b = .error (.malformed fault)) ∨
      (∀ s : String, b ≠ s.toUTF8) ∧ decode b = .error (.io .invalidUtf8) := by
  by_cases hwhole : ∃ s : String, b = s.toUTF8
  · obtain ⟨s, rfl⟩ := hwhole
    obtain ⟨rest, rfl, hrest⟩ := exists_rest_of_append hsplit
    have htext := congrArg String.toList hrest
    rw [String.toList_append, String.toList_append] at htext
    have hs : s.toList ≠ [] := fun hnil => hb (by rw [String.toList_eq_nil_iff.mp hnil]; rfl)
    -- What is missing ends with the line feed, and with something of the list before it.
    rcases List.eq_nil_or_concat rest.toList with hnil | ⟨init, c, hconcat⟩
    · exact absurd (by rw [String.toList_eq_nil_iff.mp hnil]; rfl) htail
    · rw [hconcat, List.concat_eq_append, ← List.append_assoc] at htext
      obtain ⟨hlist, hlast⟩ := List.append_inj' htext rfl
      have hinit : init ≠ [] := by
        rintro rfl
        refine hfeed (congrArg String.toUTF8 (String.toList_injective ?_))
        exact hconcat.trans hlast.symm
      obtain ⟨fault, hfault⟩ := Asset.listOfJson_torn hlist.symm hinit
      refine .inl ⟨s, fault, rfl, ?_⟩
      rw [decode_toUTF8 hlist.symm hs, hfault]
      rfl
  · have hinside : ∀ s : String, b ≠ s.toUTF8 := fun s hs => hwhole ⟨s, hs⟩
    refine .inr ⟨hinside, ?_⟩
    rw [decode, fromUTF8?_eq_none hinside]

/-- What is written for entries starts with a bracket, and the bracket alone is a torn ledger. -/
theorem exists_tail_of_bracket (es : List Asset) :
    ∃ tail, encode es = "[".toUTF8 ++ tail ∧ tail ≠ .empty ∧ tail ≠ "\n".toUTF8 := by
  obtain ⟨cs, hopens⟩ := listJson_opens es
  have hcs : cs ≠ [] := by
    rintro rfl
    have hlist := Asset.readList_listJson es
    rw [hopens] at hlist
    cases hlist
  have hjson : Asset.listJson es = "[" ++ String.ofList cs :=
    String.toList_injective (by simp [hopens])
  have hencode : encode es = "[".toUTF8 ++ (String.ofList cs ++ "\n").toUTF8 := by
    simp only [encode, hjson, String.toUTF8_eq_toByteArray, String.toByteArray_append,
      ByteArray.append_assoc]
  refine ⟨_, hencode, fun hempty => ?_, fun hfeed => hcs ?_⟩
  · simpa using congrArg ByteArray.size hempty
  · simpa using String.toByteArray_inj.mp hfeed

end Ledger
end NetPool
