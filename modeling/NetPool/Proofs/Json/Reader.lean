import NetPool.Json.Reader
import NetPool.Json.Writer
import NetPool.Proofs.Json.Text

/-! # Written JSON values

Numbers, records and lists are read back from the form in which they are written over several
lines. For a record it suffices that each member is read back on its own (`Gathers`). -/

namespace NetPool.Json

open Numeral Text

/-! ## Gaps -/

@[simp] theorem skipGap_newLine (level : Nat) (cs : List Char) :
    skipGap (newLine level ++ cs) = skipGap cs := by
  have hblank : ∀ c ∈ newLine level, isGap c = true := by
    intro c hc
    rcases List.mem_cons.mp hc with rfl | hc
    · decide
    · rw [List.eq_of_mem_replicate hc]
      decide
  exact List.dropWhile_append_of_pos hblank

@[simp] theorem skipGap_cons_of_not {c : Char} (h : isGap c = false) (cs : List Char) :
    skipGap (c :: cs) = c :: cs := by
  simp [skipGap, h]

@[simp] theorem skipGap_blank (cs : List Char) : skipGap (' ' :: cs) = skipGap cs := by
  simp [skipGap, isGap]

/-! ## Whole numbers -/

/-- A text that follows a value within a written record or list. -/
def FollowsValue (rest : List Char) : Prop := rest.head? = some ',' ∨ rest.head? = some '\n'

theorem FollowsValue.not_head {rest : List Char} (h : FollowsValue rest) {c : Char}
    (hcomma : c ≠ ',') (hfeed : c ≠ '\n') : rest.head? ≠ some c := by
  rcases h with h | h
  · rw [h]
    exact fun he => hcomma (Option.some.inj he).symm
  · rw [h]
    exact fun he => hfeed (Option.some.inj he).symm

theorem FollowsValue.endsRun {rest : List Char} (h : FollowsValue rest) :
    EndsRun (isDigit 10) rest := by
  intro c hc
  rcases h with h | h
  · obtain rfl : ',' = c := by simpa [h] using hc
    decide
  · obtain rfl : '\n' = c := by simpa [h] using hc
    decide

theorem le_foldl_digits (ds : List Char) (m : Nat) :
    m ≤ ds.foldl (fun n c => n * 10 + (digitValue? c).getD 0) m := by
  induction ds generalizing m with
  | nil => exact Nat.le_refl m
  | cons d ds ih =>
      have hstep : m ≤ m * 10 + (digitValue? d).getD 0 := by omega
      exact Nat.le_trans hstep (ih _)

/-- Digits are gathered to the end while their number stays below the bound. -/
theorem gather_eq {bound m : Nat} {ds : List Char}
    (h : ds.foldl (fun n c => n * 10 + (digitValue? c).getD 0) m < bound) :
    gather bound m ds = (ds.foldl (fun n c => n * 10 + (digitValue? c).getD 0) m, []) := by
  induction ds generalizing m with
  | nil => rfl
  | cons d ds ih =>
      have hstep : m * 10 + (digitValue? d).getD 0 < bound :=
        Nat.lt_of_le_of_lt (le_foldl_digits ds _) h
      rw [gather, if_pos hstep]
      exact ih h

theorem gather_decimal {bound n : Nat} (hn : n < bound) : gather bound 0 (decimal n) = (n, []) := by
  have hvalue : value 10 (decimal n) = n := value_toDigits (by decide) (by decide) n
  rw [value] at hvalue
  rw [gather_eq (by rwa [hvalue]), hvalue]

theorem readUnsigned_decimal {n : Nat} (hn : n < wholeLimit) {rest : List Char}
    (hrest : FollowsValue rest) :
    readUnsigned false (decimal n ++ rest) = .ok (.natural n, rest) := by
  have hdigits : ∀ c ∈ decimal n, isDigit 10 c = true :=
    fun c hc => isDigit_of_mem_toDigits (by decide) (by decide) hc
  have hrun : digitRun (decimal n ++ rest) = (decimal n, rest) := by
    rw [digitRun, takeWhile_append_of_endsRun hdigits hrest.endsRun,
      dropWhile_append_of_endsRun hdigits hrest.endsRun]
  have hne : decimal n ≠ [] := Nat.toDigits_ne_nil
  have hzero : ¬ ((decimal n).head? = some '0' ∧ (decimal n).length > 1) := by
    rintro ⟨hhead, hlength⟩
    rcases Nat.eq_zero_or_pos n with rfl | hpos
    · exact absurd hlength (by decide)
    · exact head?_toDigits_ne_zero (by decide) (by decide) hpos hhead
  have hgather : gather wholeLimit 0 (decimal n) = (n, []) := gather_decimal hn
  unfold readUnsigned
  simp only [hrun, List.append_eq_nil_iff, hne, false_and, List.isEmpty_iff, if_false, hzero,
    or_false]
  unfold readNumberEnd
  simp only [hgather]
  split
  · exact absurd rfl (hrest.not_head (by decide) (by decide))
  · exact absurd rfl (hrest.not_head (by decide) (by decide))
  · exact absurd rfl (hrest.not_head (by decide) (by decide))
  · rfl

theorem isGap_of_isDigit {c : Char} (hc : isDigit 10 c = true) : isGap c = false := by
  cases hgap : isGap c with
  | false => rfl
  | true =>
      simp only [isGap, Bool.or_eq_true, decide_eq_true_eq] at hgap
      rcases hgap with ((rfl | rfl) | rfl) | rfl <;> exact absurd hc (by decide)

/-- A number below the limit is read back. -/
theorem readNatural_decimal {expected : String} {limit n : Nat} (hn : n < limit)
    (hlimit : limit ≤ wholeLimit) {rest : List Char} (hrest : FollowsValue rest) :
    readNatural expected limit (decimal n ++ rest) = .ok (n, rest) := by
  have hread := readUnsigned_decimal (Nat.lt_of_lt_of_le hn hlimit) hrest
  cases hcs : decimal n with
  | nil => exact absurd hcs Nat.toDigits_ne_nil
  | cons c cs =>
      have hmem : c ∈ decimal n := hcs ▸ List.mem_cons_self
      have hc : isDigit 10 c = true := isDigit_of_mem_toDigits (by decide) (by decide) hmem
      have hgap : isGap c = false := isGap_of_isDigit hc
      have hminus : c ≠ '-' := by
        rintro rfl
        exact absurd hc (by decide)
      have hskip : skipGap (c :: cs ++ rest) = c :: (cs ++ rest) := skipGap_cons_of_not hgap _
      have hnumber : readNumber (c :: (cs ++ rest)) = .ok (.natural n, rest) := by
        rw [hcs] at hread
        unfold readNumber
        split
        · rename_i heq
          exact absurd (List.cons.inj heq).1 hminus
        · exact hread
      rw [readNatural, hskip]
      simp [hc, hnumber, hn]

/-! ## Lines -/

theorem intercalate_cons {α : Type} (sep x : List α) (xs : List (List α)) :
    List.intercalate sep (x :: xs) = x ++ xs.flatMap (sep ++ ·) := by
  induction xs generalizing x with
  | nil => simp [List.intercalate]
  | cons y xs ih =>
      have hstep : List.intercalate sep (x :: y :: xs) =
          x ++ (sep ++ List.intercalate sep (y :: xs)) := by simp [List.intercalate]
      rw [hstep, ih]
      simp

/-- Items with a comma and a line feed before each of them. -/
def commaLines (level : Nat) (items : List (List Char)) : List Char :=
  items.flatMap fun item => ',' :: (newLine level ++ item)

theorem writeLines_cons (level : Nat) (opening closing : Char) (item : List Char)
    (items : List (List Char)) :
    writeLines level opening closing (item :: items) =
      opening :: (newLine (level + 1) ++ (item ++ (commaLines (level + 1) items ++
        (newLine level ++ [closing])))) := by
  simp [writeLines, intercalate_cons, commaLines]

theorem followsValue_commaLines (level : Nat) (items : List (List Char)) (rest : List Char) :
    FollowsValue (commaLines level items ++ (newLine (level - 1) ++ rest)) := by
  cases items with
  | nil => exact .inr rfl
  | cons item items => exact .inl rfl

theorem length_le_commaLines (level : Nat) (items : List (List Char)) :
    items.length ≤ (commaLines level items).length := by
  induction items with
  | nil => exact Nat.zero_le _
  | cons item items ih =>
      simp only [commaLines, List.flatMap_cons, List.length_append, List.length_cons] at ih ⊢
      omega

/-! ## Records -/

section Records

variable {ρ α : Type} {r : RecordReader ρ α}

/-- Reading the written members in order, each on its own, turns `parts` into `last`. The keys are
new and their values are read wherever they stand. -/
inductive Gathers (r : RecordReader ρ α) : List String → ρ → Members → ρ → Prop
  | nil {seen parts} : Gathers r seen parts [] parts
  | cons {seen parts key value field next members last}
      (hfield : r.fields.find? (·.name = key) = some field) (hseen : key ∉ seen)
      (hread : ∀ rest, FollowsValue rest →
        field.read parts (' ' :: (value.write ++ rest)) = .ok (next, rest))
      (hmembers : Gathers r (key :: seen) next members last) :
      Gathers r seen parts ((key, value) :: members) last

theorem readMember_of_read {field : FieldReader ρ} {seen : List String} {parts next : ρ}
    {key : String} {cs rest : List Char} (hfield : r.fields.find? (·.name = key) = some field)
    (hseen : key ∉ seen) (hread : field.read parts cs = .ok (next, rest)) :
    r.readMember seen parts key (':' :: cs) = .ok (next, rest) := by
  have hcolon : readColon (':' :: cs) = .ok cs := by
    simp [readColon, skipGap_cons_of_not (show isGap ':' = false by decide)]
  simp [RecordReader.readMember, hfield, hseen, hcolon, hread]

theorem nextKey_first (level : Nat) (cs : List Char) :
    nextKey true (newLine level ++ '"' :: cs) = .ok (true, cs) := by
  simp [nextKey, skipGap_cons_of_not (show isGap '"' = false by decide)]

theorem nextKey_comma (level : Nat) (cs : List Char) :
    nextKey false (',' :: (newLine level ++ '"' :: cs)) = .ok (true, cs) := by
  simp [nextKey, skipGap_cons_of_not (show isGap ',' = false by decide),
    skipGap_cons_of_not (show isGap '"' = false by decide)]

theorem nextKey_close (isFirst : Bool) (level : Nat) (cs : List Char) :
    nextKey isFirst (newLine level ++ '}' :: cs) = .ok (false, '}' :: cs) := by
  simp [nextKey, skipGap_cons_of_not (show isGap '}' = false by decide)]

theorem writeMember_append (m : String × Scalar) (rest : List Char) :
    writeMember [':', ' '] m ++ rest =
      '"' :: (m.1.toList.flatMap writtenChar ++ '"' :: ':' :: ' ' :: (m.2.write ++ rest)) := by
  simp [writeMember, writeText]

/-- Members with commas before them are read up to the closing brace. -/
theorem readMembers_commaLines {members : Members} {seen : List String} {parts last : ρ}
    (h : Gathers r seen parts members last) (level : Nat) (rest : List Char) {fuel : Nat}
    (hfuel : members.length < fuel) :
    r.readMembers fuel false seen parts
      (commaLines (level + 1) (members.map (writeMember [':', ' '])) ++
        (newLine level ++ '}' :: rest)) = .ok (last, '}' :: rest) := by
  induction h generalizing fuel with
  | nil =>
      obtain ⟨fuel, rfl⟩ : ∃ k, fuel = k + 1 := ⟨fuel - 1, by omega⟩
      simp [RecordReader.readMembers, commaLines, nextKey_close]
  | @cons seen parts key value field next members last hfield hseen hread _ ih =>
      obtain ⟨fuel, rfl⟩ : ∃ k, fuel = k + 1 := ⟨fuel - 1, by omega⟩
      have hfollows := followsValue_commaLines (level + 1)
        (members.map (writeMember [':', ' '])) ('}' :: rest)
      have hmember := readMember_of_read hfield hseen (hread _ hfollows)
      have hmore := @ih fuel (by simpa using hfuel)
      simp only [Nat.add_sub_cancel] at hmember
      rw [List.map_cons, commaLines, List.flatMap_cons, ← commaLines]
      simp only [List.cons_append, List.append_assoc]
      rw [writeMember_append, RecordReader.readMembers, nextKey_comma]
      simp only [readText_flatMap_writtenChar, String.ofList_toList, hmember]
      exact hmore

/-- A written record is read back if its members are. -/
theorem read_writePretty {m : String × Scalar} {members : Members} {last : ρ} {a : α}
    (h : Gathers r [] r.start (m :: members) last) (hfinish : r.finish last = .ok a) (level : Nat)
    (rest : List Char) :
    r.read (writePretty level (m :: members) ++ rest) = .ok (a, rest) := by
  cases h with
  | @cons _ _ key value field next _ _ hfield hseen hread hmembers =>
      have hfollows := followsValue_commaLines (level + 1)
        (members.map (writeMember [':', ' '])) ('}' :: rest)
      have hmember := readMember_of_read hfield hseen (hread _ hfollows)
      simp only [Nat.add_sub_cancel] at hmember
      have htext : writePretty level ((key, value) :: members) ++ rest =
          '{' :: (newLine (level + 1) ++ '"' :: (key.toList.flatMap writtenChar ++ '"' :: ':' :: ' ' ::
            (value.write ++ (commaLines (level + 1) (members.map (writeMember [':', ' '])) ++
              (newLine level ++ '}' :: rest))))) := by
        rw [writePretty, List.map_cons, writeLines_cons]
        simp only [List.cons_append, List.append_assoc, writeMember_append, List.nil_append]
      have hlength := length_le_commaLines (level + 1) (members.map (writeMember [':', ' ']))
      rw [htext, RecordReader.read, skipGap_cons_of_not (by decide)]
      simp only
      rw [RecordReader.readMembers, nextKey_first]
      simp only [readText_flatMap_writtenChar, String.ofList_toList, hmember]
      rw [readMembers_commaLines hmembers level rest]
      · simp only [RecordReader.close, hfinish, Except.map]
        rfl
      · simp only [List.length_append, List.length_cons, List.length_map] at hlength ⊢
        omega

end Records

/-! ## Lists -/

section Lists

variable {α : Type} {read : Reader α} {text : α → List Char}

theorem nextItem_close (isFirst : Bool) (level : Nat) (cs : List Char) :
    nextItem isFirst (newLine level ++ ']' :: cs) = .ok (false, ']' :: cs) := by
  simp [nextItem, skipGap_cons_of_not (show isGap ']' = false by decide)]

theorem nextItem_first (level : Nat) (cs : List Char) :
    nextItem true (newLine level ++ '{' :: cs) = .ok (true, '{' :: cs) := by
  simp [nextItem, skipGap_cons_of_not (show isGap '{' = false by decide)]

theorem nextItem_comma (level : Nat) (cs : List Char) :
    nextItem false (',' :: (newLine level ++ '{' :: cs)) = .ok (true, '{' :: cs) := by
  simp [nextItem, skipGap_cons_of_not (show isGap ',' = false by decide),
    skipGap_cons_of_not (show isGap '{' = false by decide)]

theorem closeList_cons (cs : List Char) : closeList (']' :: cs) = .ok cs := by
  simp [closeList, skipGap_cons_of_not (show isGap ']' = false by decide)]

/-- How the items of a list must be written and read: as records, each read back wherever it
stands. -/
structure ReadsBack (read : Reader α) (text : α → List Char) (as : List α) : Prop where
  opens : ∀ a ∈ as, ∃ cs, text a = '{' :: cs
  reads : ∀ a ∈ as, ∀ rest, read (text a ++ rest) = .ok (a, rest)

theorem ReadsBack.tail {a : α} {as : List α} (h : ReadsBack read text (a :: as)) :
    ReadsBack read text as :=
  ⟨fun b hb => h.opens b (List.mem_cons_of_mem a hb),
    fun b hb => h.reads b (List.mem_cons_of_mem a hb)⟩

theorem readItems_commaLines {as : List α} (h : ReadsBack read text as) (level : Nat)
    (rest : List Char) {fuel : Nat} (hfuel : as.length < fuel) :
    readItems read fuel false (commaLines (level + 1) (as.map text) ++
      (newLine level ++ ']' :: rest)) = .ok (as, rest) := by
  induction as generalizing fuel with
  | nil =>
      obtain ⟨fuel, rfl⟩ : ∃ k, fuel = k + 1 := ⟨fuel - 1, by omega⟩
      simp [readItems, commaLines, nextItem_close, closeList_cons, Except.map]
  | cons a as ih =>
      obtain ⟨fuel, rfl⟩ : ∃ k, fuel = k + 1 := ⟨fuel - 1, by omega⟩
      obtain ⟨cs, hcs⟩ := h.opens a List.mem_cons_self
      have hread := h.reads a List.mem_cons_self
      have hmore := @ih h.tail fuel (by simpa using hfuel)
      rw [List.map_cons, commaLines, List.flatMap_cons, ← commaLines]
      simp only [hcs, List.cons_append, List.append_assoc] at hread ⊢
      rw [readItems, nextItem_comma]
      simp only [hread, hmore, Result.map_ok]

/-- A written list is read back if its items are. -/
theorem readList_writeLines {as : List α} (h : ReadsBack read text as) (rest : List Char) :
    readList read (writeLines 0 '[' ']' (as.map text) ++ rest) = .ok (as, rest) := by
  cases as with
  | nil =>
      have hclose : nextItem true (']' :: rest) = .ok (false, ']' :: rest) := by
        simp [nextItem, skipGap_cons_of_not (show isGap ']' = false by decide)]
      simp [writeLines, readList, skipGap_cons_of_not (show isGap '[' = false by decide), readItems,
        hclose, closeList_cons, Except.map]
  | cons a as =>
      obtain ⟨cs, hcs⟩ := h.opens a List.mem_cons_self
      have hread := h.reads a List.mem_cons_self
      have hlength := length_le_commaLines (0 + 1) (as.map text)
      rw [List.map_cons, writeLines_cons]
      simp only [hcs, List.cons_append, List.append_assoc, List.nil_append] at hread ⊢
      rw [readList, skipGap_cons_of_not (by decide)]
      simp only
      rw [readItems, nextItem_first]
      simp only [hread]
      rw [readItems_commaLines h.tail]
      · rfl
      · simp only [List.length_append, List.length_cons, List.length_map] at hlength ⊢
        omega

end Lists

end NetPool.Json
