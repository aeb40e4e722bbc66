import NetPool.Text.Blank

/-! # Blanks, lines and words

Blanks around a text, and lines that end in different ways, make no difference to what is read line
by line. -/

namespace NetPool.Text

/-- Nothing but blanks. -/
def Blank (cs : List Char) : Prop := ∀ c ∈ cs, isBlank c = true

instance (cs : List Char) : Decidable (Blank cs) :=
  decidable_of_iff (cs.all isBlank = true) List.all_eq_true

theorem blank_return : Blank ['\r'] := by decide

/-- The text with blanks around it, if any. -/
def Padded (cs line : List Char) : Prop :=
  ∃ front back, Blank front ∧ Blank back ∧ line = front ++ cs ++ back

/-- The text neither begins nor ends with a blank. -/
structure Trimmed (cs : List Char) : Prop where
  head : ∀ c ∈ cs.head?, isBlank c = false
  last : ∀ c ∈ cs.getLast?, isBlank c = false

/-- The ends are looked at, and not all characters there are. -/
instance (cs : List Char) : Decidable (Trimmed cs) :=
  have : Decidable (∀ c ∈ cs.head?, isBlank c = false) := Option.decidableForallMem _
  have : Decidable (∀ c ∈ cs.getLast?, isBlank c = false) := Option.decidableForallMem _
  decidable_of_iff ((∀ c ∈ cs.head?, isBlank c = false) ∧ ∀ c ∈ cs.getLast?, isBlank c = false)
    ⟨fun ⟨hhead, hlast⟩ => ⟨hhead, hlast⟩, fun ⟨hhead, hlast⟩ => ⟨hhead, hlast⟩⟩

/-! ## Trimming -/

theorem trimStart_of_head {cs : List Char} (h : ∀ c ∈ cs.head?, isBlank c = false) :
    trimStart cs = cs := by
  cases cs with
  | nil => rfl
  | cons c cs => rw [trimStart, List.dropWhile_cons_of_neg (by simp [h c rfl])]

theorem trimEnd_of_last {cs : List Char} (h : ∀ c ∈ cs.getLast?, isBlank c = false) :
    trimEnd cs = cs := by
  have hreverse : ∀ c ∈ cs.reverse.head?, isBlank c = false := by
    rw [List.head?_reverse]
    exact h
  have htrim := trimStart_of_head hreverse
  rw [trimStart] at htrim
  rw [trimEnd, htrim, List.reverse_reverse]

theorem Trimmed.trim {cs : List Char} (h : Trimmed cs) : trim cs = cs := by
  rw [Text.trim, trimStart_of_head h.head, trimEnd_of_last h.last]

theorem trimEnd_append_blank (cs : List Char) {back : List Char} (h : Blank back) :
    trimEnd (cs ++ back) = trimEnd cs := by
  rw [trimEnd, List.reverse_append, List.dropWhile_append_of_pos fun c hc =>
    h c (List.mem_reverse.mp hc), ← trimEnd]

theorem trim_append_blank (cs : List Char) {back : List Char} (h : Blank back) :
    trim (cs ++ back) = trim cs := by
  rw [trim, trim, trimStart, trimStart, List.dropWhile_append]
  split
  · rename_i hempty
    have hback : back.dropWhile isBlank = [] := by
      rw [← List.append_nil back, List.dropWhile_append_of_pos h]
      rfl
    rw [hback, List.isEmpty_iff.mp hempty]
  · exact trimEnd_append_blank _ h

theorem trim_blank_append {front : List Char} (h : Blank front) (cs : List Char) :
    trim (front ++ cs) = trim cs := by
  rw [trim, trimStart, List.dropWhile_append_of_pos h, ← trimStart, ← trim]

theorem trim_of_padded {cs line : List Char} (hpadded : Padded cs line) : trim line = trim cs := by
  obtain ⟨front, back, hfront, hback, rfl⟩ := hpadded
  rw [trim_append_blank _ hback, trim_blank_append hfront]

theorem trim_of_blank {line : List Char} (h : Blank line) : trim line = [] := by
  rw [← List.append_nil line, trim_blank_append h]
  rfl

/-- The text is what trimming leaves, with blanks around it. -/
theorem padded_trim (line : List Char) : Padded (trim line) line := by
  refine ⟨line.takeWhile isBlank,
    ((trimStart line).reverse.takeWhile isBlank).reverse, ?_, ?_, ?_⟩
  · intro c hc
    exact List.all_eq_true.mp List.all_takeWhile c hc
  · intro c hc
    exact List.all_eq_true.mp List.all_takeWhile c (List.mem_reverse.mp hc)
  · have hend : trim line ++ ((trimStart line).reverse.takeWhile isBlank).reverse =
        trimStart line := by
      rw [trim, trimEnd, ← List.reverse_append, List.takeWhile_append_dropWhile,
        List.reverse_reverse]
    rw [List.append_assoc, hend, trimStart, List.takeWhile_append_dropWhile]

/-! ## Lines -/

theorem chopReturn_cases (line : List Char) :
    chopReturn line = line ∨ line = chopReturn line ++ ['\r'] := by
  rw [chopReturn]
  split
  · rename_i hlast
    obtain ⟨front, rfl⟩ := List.getLast?_eq_some_iff.mp hlast
    exact .inr (by rw [List.dropLast_concat])
  · exact .inl rfl

theorem splitLines_of_not_mem {line : List Char} (h : '\n' ∉ line) :
    splitLines line = ([], line) := by
  induction line with
  | nil => rfl
  | cons c line ih =>
      obtain ⟨hc, hline⟩ := not_or.mp (mt List.mem_cons.mpr h)
      rw [splitLines, ih hline]
      simp [Ne.symm hc]

theorem splitLines_append {line : List Char} (h : '\n' ∉ line) (rest : List Char) :
    splitLines (line ++ '\n' :: rest) = (line :: (splitLines rest).1, (splitLines rest).2) := by
  induction line with
  | nil => simp [splitLines]
  | cons c line ih =>
      obtain ⟨hc, hline⟩ := not_or.mp (mt List.mem_cons.mpr h)
      rw [List.cons_append, splitLines, ih hline]
      simp [Ne.symm hc]

theorem lines_of_not_mem {line : List Char} (h : '\n' ∉ line) :
    lines line = if line.isEmpty then [] else [line] := by
  rw [lines, splitLines_of_not_mem h]
  rfl

theorem lines_append {line : List Char} (h : '\n' ∉ line) (rest : List Char) :
    lines (line ++ '\n' :: rest) = chopReturn line :: lines rest := by
  rw [lines, splitLines_append h]
  rfl

/-- What is read line by line is the same however the lines end, and whether the last one ends. -/
theorem filterMap_lines {α : Type} {read : List Char → Option α}
    (hreturn : ∀ line, read (line ++ ['\r']) = read line) (hempty : read [] = none)
    {ls : List (List Char)} (hls : ∀ l ∈ ls, '\n' ∉ l) :
    (lines (List.intercalate ['\n'] ls)).filterMap read = ls.filterMap read := by
  have hchop : ∀ line, read (chopReturn line) = read line := by
    intro line
    rcases chopReturn_cases line with hsame | hchopped
    · rw [hsame]
    · rw [hchopped, hreturn, ← hchopped]
  induction ls with
  | nil => rfl
  | cons l ls ih =>
      have hl := hls l List.mem_cons_self
      cases ls with
      | nil =>
          rw [List.intercalate_singleton, lines_of_not_mem hl]
          split
          · rename_i hnil
            rw [List.isEmpty_iff.mp hnil]
            simp [hempty]
          · rfl
      | cons m ls =>
          rw [List.intercalate_cons_cons, List.append_assoc, List.singleton_append, lines_append hl,
            List.filterMap_cons, hchop, ih fun m hm => hls m (List.mem_cons_of_mem l hm)]
          rfl

/-! ## Words -/

theorem words_of_blank {c : Char} (h : isBlank c = true) (cs : List Char) :
    words (c :: cs) = words cs := by
  rw [words.eq_def]
  exact if_pos h

theorem words_singleton {c : Char} (h : isBlank c = false) : words [c] = [[c]] := by
  rw [words.eq_def]
  exact if_neg (Bool.eq_false_iff.mp h)

theorem words_before_blank {c d : Char} (hc : isBlank c = false) (hd : isBlank d = true)
    (cs : List Char) : words (c :: d :: cs) = [c] :: words (d :: cs) := by
  rw [words.eq_def]
  simp [hc, hd]

/-- A character in front of a word belongs to that word. -/
theorem words_before_word {c d : Char} (hc : isBlank c = false) (hd : isBlank d = false)
    {cs word : List Char} {ws : List (List Char)} (h : words (d :: cs) = word :: ws) :
    words (c :: d :: cs) = (c :: word) :: ws := by
  rw [words.eq_def]
  simp [hc, hd, h]

theorem exists_words_cons {c : Char} (h : isBlank c = false) (cs : List Char) :
    ∃ word ws, words (c :: cs) = (c :: word) :: ws := by
  induction cs generalizing c with
  | nil => exact ⟨[], [], words_singleton h⟩
  | cons d cs ih =>
      cases hd : isBlank d with
      | true => exact ⟨[], _, words_before_blank h hd cs⟩
      | false =>
          obtain ⟨word, ws, hwords⟩ := ih hd
          exact ⟨_, _, words_before_word h hd hwords⟩

/-- A blank parts the words before it from those after it. -/
theorem words_append_blank {c : Char} (h : isBlank c = true) (cs rest : List Char) :
    words (cs ++ c :: rest) = words cs ++ words rest := by
  induction cs with
  | nil => exact words_of_blank h rest
  | cons d cs ih =>
      cases hd : isBlank d with
      | true => rw [List.cons_append, words_of_blank hd, words_of_blank hd, ih]
      | false =>
          cases cs with
          | nil =>
              rw [List.singleton_append, words_before_blank hd h, words_of_blank h,
                words_singleton hd, List.singleton_append]
          | cons e cs =>
              cases he : isBlank e with
              | true =>
                  rw [List.cons_append, List.cons_append, words_before_blank hd he,
                    words_before_blank hd he, List.cons_append, ← ih, List.cons_append]
              | false =>
                  obtain ⟨word, ws, hwords⟩ := exists_words_cons he cs
                  have hrest : words (e :: (cs ++ c :: rest)) = (e :: word) :: (ws ++ words rest) := by
                    rw [← List.cons_append, ih, hwords, List.cons_append]
                  rw [List.cons_append, List.cons_append, words_before_word hd he hrest,
                    words_before_word hd he hwords, List.cons_append]

theorem words_append_return (line : List Char) : words (line ++ ['\r']) = words line := by
  rw [words_append_blank (by decide)]
  exact List.append_nil _

theorem words_of_no_blank {word : List Char} (hne : word ≠ []) (h : ∀ c ∈ word, isBlank c = false) :
    words word = [word] := by
  induction word with
  | nil => exact absurd rfl hne
  | cons c word ih =>
      have hc := h c List.mem_cons_self
      have hword := fun d hd => h d (List.mem_cons_of_mem c hd)
      cases word with
      | nil => exact words_singleton hc
      | cons d word =>
          exact words_before_word hc (hword d List.mem_cons_self)
            (ih (List.cons_ne_nil d word) hword)

theorem mem_of_mem_words {cs word : List Char} (h : word ∈ words cs) {c : Char} (hc : c ∈ word) :
    c ∈ cs := by
  induction cs generalizing word with
  | nil => exact absurd h List.not_mem_nil
  | cons d cs ih =>
      cases hd : isBlank d with
      | true =>
          rw [words_of_blank hd] at h
          exact List.mem_cons_of_mem d (ih h hc)
      | false =>
          cases cs with
          | nil =>
              rw [words_singleton hd] at h
              rwa [List.mem_singleton.mp h] at hc
          | cons e cs =>
              cases he : isBlank e with
              | true =>
                  rw [words_before_blank hd he] at h
                  rcases List.mem_cons.mp h with rfl | h
                  · rw [List.mem_singleton.mp hc]
                    exact List.mem_cons_self
                  · exact List.mem_cons_of_mem d (ih h hc)
              | false =>
                  obtain ⟨first, ws, hwords⟩ := exists_words_cons he cs
                  rw [words_before_word hd he hwords] at h
                  rw [hwords] at ih
                  rcases List.mem_cons.mp h with rfl | h
                  · rcases List.mem_cons.mp hc with rfl | hc
                    · exact List.mem_cons_self
                    · exact List.mem_cons_of_mem d (ih List.mem_cons_self hc)
                  · exact List.mem_cons_of_mem d (ih (List.mem_cons_of_mem _ h) hc)

end NetPool.Text
