import NetPool.Files.System

/-! # Paths and their texts

The text of the path above another one is read back as that path, and it is a path whenever the
longer one is. -/

namespace NetPool.Path

/-! ## Splitting -/

theorem splitSlashes_ne_nil (cs : List Char) : splitSlashes cs ≠ [] := by
  cases cs with
  | nil => exact List.cons_ne_nil _ _
  | cons c cs =>
      rw [splitSlashes]
      split
      · exact List.cons_ne_nil _ _
      · split
        · exact List.cons_ne_nil _ _
        · exact List.cons_ne_nil _ _

theorem splitSlashes_cons {c : Char} (h : c ≠ '/') (cs : List Char) :
    ∃ p ps, splitSlashes cs = p :: ps ∧ splitSlashes (c :: cs) = (c :: p) :: ps := by
  cases hcs : splitSlashes cs with
  | nil => exact absurd hcs (splitSlashes_ne_nil cs)
  | cons p ps => exact ⟨p, ps, rfl, by simp [splitSlashes, h, hcs]⟩

theorem slash_not_mem_of_mem_splitSlashes {cs p : List Char} (h : p ∈ splitSlashes cs) :
    '/' ∉ p := by
  induction cs generalizing p with
  | nil =>
      simp only [splitSlashes, List.mem_singleton] at h
      simp [h]
  | cons c cs ih =>
      by_cases hc : c = '/'
      · rw [splitSlashes, if_pos hc] at h
        rcases List.mem_cons.mp h with rfl | h
        · exact List.not_mem_nil
        · exact ih h
      · obtain ⟨q, qs, hqs, hcons⟩ := splitSlashes_cons hc cs
        rw [hcons] at h
        rcases List.mem_cons.mp h with rfl | h
        · intro hmem
          rcases List.mem_cons.mp hmem with hslash | hmem
          · exact hc hslash.symm
          · exact ih (hqs ▸ List.mem_cons_self) hmem
        · exact ih (hqs ▸ List.mem_cons_of_mem q h)

/-- The parts with slashes between them give the text. -/
theorem intercalate_splitSlashes (cs : List Char) :
    List.intercalate ['/'] (splitSlashes cs) = cs := by
  induction cs with
  | nil => rfl
  | cons c cs ih =>
      by_cases hc : c = '/'
      · rw [splitSlashes, if_pos hc, hc, List.intercalate_cons_of_ne_nil (splitSlashes_ne_nil cs),
          ih]
        rfl
      · obtain ⟨p, ps, hps, hcons⟩ := splitSlashes_cons hc cs
        rw [hcons]
        rw [hps] at ih
        cases ps with
        | nil => simpa using ih
        | cons q qs => simpa [List.intercalate_cons_cons] using ih

theorem splitSlashes_append {d : List Char} (hd : '/' ∉ d) (cs : List Char) :
    splitSlashes (d ++ '/' :: cs) = d :: splitSlashes cs := by
  induction d with
  | nil => simp [splitSlashes]
  | cons c d ih =>
      have hc : c ≠ '/' := fun h => hd (h ▸ List.mem_cons_self)
      obtain ⟨p, ps, hps, hcons⟩ := splitSlashes_cons hc (d ++ '/' :: cs)
      rw [ih (fun h => hd (List.mem_cons_of_mem c h))] at hps
      obtain ⟨rfl, rfl⟩ := List.cons.inj hps
      exact hcons

theorem splitSlashes_of_not_mem {d : List Char} (hd : '/' ∉ d) : splitSlashes d = [d] := by
  induction d with
  | nil => rfl
  | cons c d ih =>
      have hc : c ≠ '/' := fun h => hd (h ▸ List.mem_cons_self)
      obtain ⟨p, ps, hps, hcons⟩ := splitSlashes_cons hc d
      rw [ih (fun h => hd (List.mem_cons_of_mem c h))] at hps
      obtain ⟨rfl, rfl⟩ := List.cons.inj hps
      exact hcons

/-- Parts without slashes are found again between the slashes. -/
theorem splitSlashes_intercalate {ds : List (List Char)} (hne : ds ≠ [])
    (h : ∀ d ∈ ds, '/' ∉ d) : splitSlashes (List.intercalate ['/'] ds) = ds := by
  induction ds with
  | nil => exact absurd rfl hne
  | cons d ds ih =>
      have hd := h d List.mem_cons_self
      cases ds with
      | nil => simp [splitSlashes_of_not_mem hd]
      | cons e es =>
          have hrest := ih (List.cons_ne_nil e es) fun x hx => h x (List.mem_cons_of_mem d hx)
          rw [List.intercalate_cons_cons, List.append_assoc, List.singleton_append,
            splitSlashes_append hd, hrest]

/-! ## Texts -/

/-- A part that is kept when a text is read: neither empty nor one point, and without a slash. -/
def IsName (d : String) : Prop := d ≠ "" ∧ d ≠ hereName ∧ '/' ∉ d.toList

theorem isName_of_mem_parts {s d : String} (h : d ∈ (ofText s).parts) : IsName d := by
  simp only [ofText, List.mem_map, List.mem_filter, Bool.not_eq_eq_eq_not, Bool.not_true,
    Bool.or_eq_false_iff, decide_eq_false_iff_not] at h
  obtain ⟨p, ⟨hp, hempty, hpoint⟩, rfl⟩ := h
  refine ⟨fun h => hempty ?_, fun h => hpoint ?_, ?_⟩
  · simpa using congrArg String.toList h
  · simpa [hereName] using congrArg String.toList h
  · simpa using slash_not_mem_of_mem_splitSlashes hp

theorem isName_of_mem_dropLast {s d : String} (h : d ∈ (ofText s).parts.dropLast) : IsName d :=
  isName_of_mem_parts ((List.dropLast_sublist _).subset h)

theorem toList_text (p : Path) :
    p.text.toList = (if p.absolute then ['/'] else []) ++
      List.intercalate ['/'] (p.parts.map String.toList) := by
  rw [text, String.toList_append, String.toList_intercalate]
  split <;> rfl

theorem filter_names {ds : List String} (h : ∀ d ∈ ds, IsName d) :
    ((ds.map String.toList).filter fun p => !(p = [] || p = ['.'])).map String.ofList = ds := by
  have hkeep : ∀ p ∈ ds.map String.toList, (!(p = [] || p = ['.'])) = true := by
    intro p hp
    obtain ⟨d, hd, rfl⟩ := List.mem_map.mp hp
    have hempty : d.toList ≠ [] := fun he => (h d hd).1 (String.toList_inj.mp he)
    have hpoint : d.toList ≠ ['.'] := fun he => (h d hd).2.1 (String.toList_inj.mp he)
    simp [hempty, hpoint]
  rw [List.filter_eq_self.mpr hkeep, List.map_map]
  simp [Function.comp_def]

theorem endingOf_names {ds : List String} (hne : ds ≠ []) (h : ∀ d ∈ ds, IsName d)
    (front : List (List Char)) : endingOf (front ++ ds.map String.toList) = .plain := by
  obtain ⟨init, d, rfl⟩ := List.eq_nil_or_concat ds |>.resolve_left hne
  have hd : IsName d := h d (by simp)
  have hempty : d.toList ≠ [] := fun he => hd.1 (String.toList_inj.mp he)
  have hpoint : d.toList ≠ ['.'] := fun he => hd.2.1 (String.toList_inj.mp he)
  unfold endingOf
  simp only [List.concat_eq_append, List.map_append, List.map_cons, List.map_nil,
    ← List.append_assoc, List.getLast?_concat]
  split
  · rename_i heq
    exact absurd (Option.some.inj heq) hempty
  · rename_i heq
    exact absurd (Option.some.inj heq) hpoint
  · rfl

theorem head?_intercalate_ne_slash {d : String} (h : IsName d) (ds : List String) :
    ([] ++ List.intercalate ['/'] ((d :: ds).map String.toList)).head? ≠ some '/' := by
  have hstart : ∃ rest, List.intercalate ['/'] ((d :: ds).map String.toList) = d.toList ++ rest := by
    cases ds with
    | nil => exact ⟨[], by simp⟩
    | cons e es => exact ⟨_, by rw [List.map_cons, List.map_cons, List.intercalate_cons_cons,
        List.append_assoc]⟩
  obtain ⟨rest, hrest⟩ := hstart
  rw [List.nil_append, hrest]
  cases hd : d.toList with
  | nil => exact absurd (String.toList_inj.mp hd) h.1
  | cons c cs =>
      intro hhead
      have hc : c = '/' := Option.some.inj hhead
      exact h.2.2 (hd ▸ hc ▸ List.mem_cons_self)

/-- The text of a path of names is read back as this path. -/
theorem ofText_text {p : Path} (hne : p.parts ≠ []) (h : ∀ d ∈ p.parts, IsName d)
    (hending : p.ending = .plain) : ofText p.text = p := by
  have hslash : ∀ d ∈ p.parts.map String.toList, '/' ∉ d := by
    intro d hd
    obtain ⟨s, hs, rfl⟩ := List.mem_map.mp hd
    exact (h s hs).2.2
  have hsplit := splitSlashes_intercalate (by simpa using hne) hslash
  obtain ⟨absolute, parts, ending⟩ := p
  obtain rfl : ending = .plain := hending
  have htext := toList_text ⟨absolute, parts, .plain⟩
  cases absolute with
  | true =>
      have hparts : splitSlashes ((⟨true, parts, .plain⟩ : Path).text).toList =
          [] :: parts.map String.toList := by
        rw [htext]
        simpa [splitSlashes] using hsplit
      have hlast := endingOf_names hne h [[]]
      simp only [List.cons_append, List.nil_append] at hlast
      simp only [ofText, hparts, hlast]
      simp only [htext]
      simpa using filter_names h
  | false =>
      have hparts : splitSlashes ((⟨false, parts, .plain⟩ : Path).text).toList =
          parts.map String.toList := by
        rw [htext]
        simpa using hsplit
      have hlast := endingOf_names hne h []
      have hhead : (⟨false, parts, .plain⟩ : Path).text.toList.head? ≠ some '/' := by
        rw [htext]
        cases parts with
        | nil => exact absurd rfl hne
        | cons d ds => exact head?_intercalate_ne_slash (h d List.mem_cons_self) ds
      simp only [List.nil_append] at hlast
      simp only [ofText, hparts, hlast, hhead, decide_false]
      simpa using filter_names h

theorem parts_eq_nil {p : Path} (h : ∀ d ∈ p.parts, IsName d) (hending : p.ending = .plain)
    (htext : p.text = "") : p.parts = [] := by
  by_cases hne : p.parts = []
  · exact hne
  · have hread := ofText_text hne h hending
    rw [htext] at hread
    exact (congrArg Path.parts hread).symm

/-! ## The path above -/

theorem utf8ByteSize_ofList_le {cs ds : List Char} (h : cs.Sublist ds) :
    (String.ofList cs).utf8ByteSize ≤ (String.ofList ds).utf8ByteSize := by
  induction h with
  | slnil => exact Nat.le_refl _
  | cons c _ ih =>
      rw [String.ofList_cons, String.utf8ByteSize_append]
      omega
  | cons_cons c _ ih =>
      rw [String.ofList_cons, String.ofList_cons, String.utf8ByteSize_append,
        String.utf8ByteSize_append]
      omega

theorem intercalate_sublist {ps qs : List (List Char)} (h : ps.Sublist qs) :
    (List.intercalate ['/'] ps).Sublist (List.intercalate ['/'] qs) := by
  induction h with
  | slnil => exact .slnil
  | @cons ps qs q h ih =>
      cases qs with
      | nil =>
          obtain rfl := List.sublist_nil.mp h
          exact List.nil_sublist _
      | cons q' qs =>
          rw [List.intercalate_cons_cons]
          exact ih.trans (List.sublist_append_right _ _)
  | @cons_cons ps qs q h ih =>
      cases ps with
      | nil =>
          cases qs with
          | nil => exact .refl _
          | cons q' qs =>
              rw [List.intercalate_cons_cons, List.intercalate_singleton, List.append_assoc]
              exact List.sublist_append_left _ _
      | cons p' ps =>
          cases qs with
          | nil => exact absurd (List.sublist_nil.mp h) (List.cons_ne_nil _ _)
          | cons q' qs =>
              rw [List.intercalate_cons_cons, List.intercalate_cons_cons]
              exact (List.Sublist.refl _).append ih

theorem parts_toList_sublist (s : String) :
    ((ofText s).parts.map String.toList).Sublist (splitSlashes s.toList) := by
  have hmap : (ofText s).parts.map String.toList =
      (splitSlashes s.toList).filter fun p => !(p = [] || p = ['.']) := by
    simp [ofText, Function.comp_def]
  rw [hmap]
  exact List.filter_sublist

theorem absolute_iff {s : String} : (ofText s).absolute = true ↔ s.toList.head? = some '/' := by
  simp [ofText]

theorem eq_of_parent? {p above : Path} (h : p.parent? = some above) :
    above = ⟨p.absolute, p.parts.dropLast, .plain⟩ := by
  rw [parent?] at h
  split at h
  · cases h
  · exact (Option.some.inj h).symm

/-- The text of the path above consists of characters of the text, in the same order. -/
theorem text_parent_sublist {s : String} {above : Path} (h : (ofText s).parent? = some above) :
    above.text.toList.Sublist s.toList := by
  have habove := eq_of_parent? h
  have hdrop : ((ofText s).parts.dropLast.map String.toList).Sublist (splitSlashes s.toList) :=
    ((List.dropLast_sublist _).map _).trans (parts_toList_sublist s)
  rw [habove, toList_text]
  by_cases habs : (ofText s).absolute = true
  · obtain ⟨cs, hcs⟩ := List.head?_eq_some_iff.mp (absolute_iff.mp habs)
    have hparts : ((ofText s).parts.map String.toList).Sublist (splitSlashes cs) := by
      have hmap : (ofText s).parts.map String.toList =
          (splitSlashes cs).filter fun p => !(p = [] || p = ['.']) := by
        simp [ofText, Function.comp_def, hcs, splitSlashes]
      rw [hmap]
      exact List.filter_sublist
    have hjoin := intercalate_sublist (((List.dropLast_sublist _).map String.toList).trans hparts)
    rw [intercalate_splitSlashes] at hjoin
    simp only [habs, if_true]
    rw [hcs]
    exact hjoin.cons_cons '/'
  · have hjoin := intercalate_sublist hdrop
    rw [intercalate_splitSlashes] at hjoin
    simpa [habs] using hjoin

/-- The text of the path above a path is a path. -/
theorem textFault?_parent {s : String} {above : Path} (hs : FileSystem.textFault? s = none)
    (h : (ofText s).parent? = some above) (hne : above.text ≠ "") :
    FileSystem.textFault? above.text = none := by
  have hsub := text_parent_sublist h
  have hsize : above.text.utf8ByteSize ≤ s.utf8ByteSize := by
    simpa using utf8ByteSize_ofList_le hsub
  have hnul : ¬ s.toList.any (·.toNat = 0) = true := by
    intro hany
    rw [FileSystem.textFault?, if_pos hany] at hs
    cases hs
  have hlong : ¬ s.utf8ByteSize > FileSystem.maxPathLength := by
    intro hlong
    rw [FileSystem.textFault?, if_neg hnul] at hs
    split at hs
    · cases hs
    · cases hs
  have hnul' : ¬ above.text.toList.any (·.toNat = 0) = true := by
    intro hany
    obtain ⟨c, hc, hzero⟩ := List.any_eq_true.mp hany
    exact hnul (List.any_eq_true.mpr ⟨c, hsub.subset hc, hzero⟩)
  rw [FileSystem.textFault?, if_neg hnul', if_neg (by simpa using hne), if_neg (by omega)]

end NetPool.Path

namespace NetPool.FileSystem

variable (fs : FileSystem) (path : String)

theorem makeDirectories_ofText {above : Path} (h : (Path.ofText path).parent? = some above) :
    fs.makeDirectories (.ofText above.text) =
      fs.ensureNames above.absolute .plain above.parts.reverse := by
  obtain rfl := Path.eq_of_parent? h
  by_cases hne : (Path.ofText path).parts.dropLast = []
  · rw [hne]
    cases (Path.ofText path).absolute with
    | true => rfl
    | false => rfl
  · rw [Path.ofText_text hne (fun d hd => Path.isName_of_mem_dropLast hd) rfl, makeDirectories]

/-- Where nothing is known of the text, the directories above may also stay as they are. -/
theorem makeParents_cases :
    (fs.makeParents path).2 = fs ∨
      fs.makeParents path =
        fs.ensureNames (Path.ofText path).absolute .plain
          (Path.ofText path).parts.dropLast.reverse := by
  rw [makeParents]
  cases h : (Path.ofText path).parent? with
  | none => exact .inl rfl
  | some above =>
      simp only [makeDirectoriesOf]
      split
      · exact .inl rfl
      · split
        · exact .inl rfl
        · rw [makeDirectories_ofText fs path h, Path.eq_of_parent? h]
          exact .inr rfl

/-- The directories above a path are made name by name, from its own parts. -/
theorem makeParents_eq (hfault : textFault? path = none) :
    fs.makeParents path =
      fs.ensureNames (Path.ofText path).absolute .plain
        (Path.ofText path).parts.dropLast.reverse := by
  rw [makeParents]
  cases h : (Path.ofText path).parent? with
  | none =>
      have hparts : (Path.ofText path).parts = [] := by simpa [Path.parent?] using h
      simp [hparts, ensureNames]
  | some above =>
      have hmake := makeDirectories_ofText fs path h
      have hparts := Path.eq_of_parent? h
      by_cases hne : above.text = ""
      · have hempty : above.parts = [] :=
          Path.parts_eq_nil (by rw [hparts]; exact fun d hd => Path.isName_of_mem_dropLast hd)
            (by rw [hparts]) hne
        rw [hparts] at hempty
        simp only at hempty
        simp [makeDirectoriesOf, hne, hempty, ensureNames]
      · have hnone := Path.textFault?_parent hfault h hne
        simp only [makeDirectoriesOf, hnone, hmake]
        rw [if_neg (by simpa using hne), hparts]

end NetPool.FileSystem
