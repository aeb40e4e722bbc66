import NetPool.Proofs.Json.Extension

/-! # Torn texts

A list or a record ends with its bracket, so whatever precedes the end of one is none: a reader that
accepts a text refuses every text that stops short of it. -/

namespace NetPool.Json

variable {α β ρ : Type}

/-- A reader that reads the same if more text follows, as long as something was left. Nothing is read
from no text. -/
structure Extends (read : Reader α) : Prop where
  nothing : ∀ r, read [] ≠ .ok r
  more : ∀ {cs a rest}, read cs = .ok (a, rest) → rest ≠ [] →
    ∀ ext, read (cs ++ ext) = .ok (a, rest ++ ext)

/-- A reader of values that tell their own end: it reads the same whatever follows. -/
structure Closes (read : Reader α) : Prop where
  nothing : ∀ r, read [] ≠ .ok r
  more : ∀ {cs a rest}, read cs = .ok (a, rest) → ∀ ext, read (cs ++ ext) = .ok (a, rest ++ ext)

theorem Closes.extends {read : Reader α} (h : Closes read) : Extends read :=
  ⟨h.nothing, fun hread _ => h.more hread⟩

theorem Extends.map {read : Reader α} (h : Extends read) (f : α → β) :
    Extends fun cs => (read cs).map f := by
  refine ⟨fun (b, rest) hr => ?_, fun hread hrest ext => ?_⟩
  · obtain ⟨a, ha, _⟩ := Result.map_eq_ok.mp hr
    exact h.nothing _ ha
  · obtain ⟨a, ha, rfl⟩ := Result.map_eq_ok.mp hread
    rw [h.more ha hrest ext, Result.map_ok]

/-! ## Single values -/

theorem closes_readString (expected : String) : Closes (readString expected) := by
  refine ⟨nofun, fun {cs a rest} hread ext => ?_⟩
  rw [readString] at hread ⊢
  split at hread
  · rename_i heq
    obtain ⟨s, hs, rfl⟩ := Result.map_eq_ok.mp hread
    simp only [skipGap_append_cons heq, readText_append hs ext, Result.map_ok]
  · cases hread

theorem closes_readWritten (expected : String) (parse : String → Except Fault α) :
    Closes (readWritten expected parse) := by
  refine ⟨nofun, fun {cs a rest} hread ext => ?_⟩
  rw [readWritten] at hread ⊢
  split at hread
  · cases hread
  · rename_i s rest' heq
    rw [(closes_readString expected).more heq ext]
    dsimp only
    split at hread
    · rename_i hparse
      cases hread
      rfl
    · cases hread

theorem extends_readNatural (expected : String) (limit : Nat) :
    Extends (readNatural expected limit) := by
  refine ⟨nofun, fun {cs a rest} hread hrest ext => ?_⟩
  rw [readNatural] at hread ⊢
  split at hread
  · cases hread
  · rename_i c cs' heq
    rw [skipGap_append_cons heq]
    dsimp only
    split_ifs at hread ⊢
    split at hread
    · cases hread
    · rename_i n rest' hnumber
      split_ifs at hread with hlimit
      cases hread
      have hmore := readNumber_append hnumber hrest ext
      rw [List.cons_append] at hmore
      simp only [hmore, if_pos hlimit]
    · cases hread
    · cases hread

theorem extends_readNullable {read : Reader α} (h : Extends read) : Extends (readNullable read) := by
  refine ⟨fun r hr => ?_, fun {cs a rest} hread hrest ext => ?_⟩
  · obtain ⟨a, ha, _⟩ := Result.map_eq_ok.mp hr
    exact h.nothing _ ha
  · rw [readNullable] at hread ⊢
    split at hread
    · rename_i cs' heq
      simp only [skipGap_append_cons heq]
      cases hword : readWord ['u', 'l', 'l'] cs' with
      | error e =>
          rw [hword] at hread
          cases hread
      | ok rest' =>
          rw [hword] at hread
          cases hread
          rw [readWord_append hword ext]
    · rename_i hnull
      obtain ⟨a', ha, rfl⟩ := Result.map_eq_ok.mp hread
      have hgap : skipGap cs ≠ [] := by
        intro hnil
        rw [hnil] at ha
        exact h.nothing _ ha
      obtain ⟨c, cs₁, hcs⟩ := List.exists_cons_of_ne_nil hgap
      have hc : c ≠ 'n' := by
        rintro rfl
        exact hnull cs₁ hcs
      rw [hcs] at ha
      have hmore := h.more ha hrest ext
      rw [List.cons_append] at hmore
      simp [skipGap_append_cons hcs, hc, hmore]

/-! ## Lists -/

theorem nextItem_append {isFirst more : Bool} {cs rest : List Char}
    (h : nextItem isFirst cs = .ok (more, rest)) (ext : List Char) :
    nextItem isFirst (cs ++ ext) = .ok (more, rest ++ ext) := by
  unfold nextItem at h
  split at h
  · cases h
  · rename_i cs' heq
    cases h
    simp [nextItem, skipGap_append_cons heq]
  · rename_i c cs' hclose heq
    have hc : c ≠ ']' := by
      rintro rfl
      exact hclose rfl
    split_ifs at h with hfirst hcomma
    · cases h
      simp [nextItem, skipGap_append_cons heq, hfirst]
    · subst hcomma
      split at h
      · cases h
      · cases h
      · rename_i hne hbracket
        cases h
        obtain ⟨d, ds, hds⟩ := List.exists_cons_of_ne_nil hne
        have hd : d ≠ ']' := by
          rintro rfl
          exact hbracket ds hds
        simp [nextItem, skipGap_append_cons heq, hfirst, hds, skipGap_append_cons hds, hd]

theorem closeList_append {cs rest : List Char} (h : closeList cs = .ok rest) (ext : List Char) :
    closeList (cs ++ ext) = .ok (rest ++ ext) := by
  unfold closeList at h
  split at h
  · cases h
  · rename_i heq
    cases h
    simp [closeList, skipGap_append_cons heq]
  · split at h
    · cases h
    · cases h
  · cases h

theorem readItems_nil (read : Reader α) (fuel : Nat) (isFirst : Bool)
    (r : List α × List Char) : readItems read fuel isFirst [] ≠ .ok r := by
  cases fuel with
  | zero => nofun
  | succ fuel => nofun

/-- The items of a list are read in the same way, with as much fuel or more. No bracket follows an
item that ends with the text. -/
theorem readItems_append {read : Reader α} (hread : Extends read) {fuel fuel' : Nat}
    (hfuel : fuel ≤ fuel') {isFirst : Bool} {cs rest : List Char} {as : List α}
    (h : readItems read fuel isFirst cs = .ok (as, rest)) (ext : List Char) :
    readItems read fuel' isFirst (cs ++ ext) = .ok (as, rest ++ ext) := by
  induction fuel generalizing fuel' isFirst cs as with
  | zero => cases h
  | succ fuel ih =>
      obtain ⟨fuel', rfl⟩ : ∃ k, fuel' = k + 1 := ⟨fuel' - 1, by omega⟩
      rw [readItems] at h ⊢
      split at h
      · cases h
      · rename_i rest' hnext
        rw [nextItem_append hnext ext]
        cases hclose : closeList rest' with
        | error e =>
            rw [hclose] at h
            cases h
        | ok left =>
            rw [hclose] at h
            cases h
            dsimp only
            rw [closeList_append hclose ext]
            rfl
      · rename_i rest' hnext
        rw [nextItem_append hnext ext]
        dsimp only
        split at h
        · cases h
        · rename_i a left hitem
          obtain ⟨as', has, rfl⟩ := Result.map_eq_ok.mp h
          have hleft : left ≠ [] := by
            rintro rfl
            exact readItems_nil read fuel false _ has
          rw [hread.more hitem hleft ext]
          dsimp only
          rw [ih (by omega) has, Result.map_ok]

theorem closes_readList {read : Reader α} (hread : Extends read) : Closes (readList read) := by
  refine ⟨nofun, fun {cs as rest} h ext => ?_⟩
  rw [readList] at h ⊢
  split at h
  · rename_i cs' heq
    simp only [skipGap_append_cons heq]
    exact readItems_append hread (by simp) h ext
  · cases h

/-! ## Records -/

theorem nextKey_append {isFirst more : Bool} {cs rest : List Char}
    (h : nextKey isFirst cs = .ok (more, rest)) (ext : List Char) :
    nextKey isFirst (cs ++ ext) = .ok (more, rest ++ ext) := by
  unfold nextKey at h
  split at h
  · cases h
  · rename_i cs' heq
    cases h
    simp [nextKey, skipGap_append_cons heq]
  · rename_i c cs' hclose heq
    have hc : c ≠ '}' := by
      rintro rfl
      exact hclose rfl
    split_ifs at h with hfirst hquote hcomma
    · cases h
      simp [nextKey, skipGap_append_cons heq, hfirst, hquote]
    · subst hcomma
      split at h
      · cases h
      · rename_i hnext
        cases h
        simp [nextKey, skipGap_append_cons heq, hfirst, skipGap_append_cons hnext]
      · cases h
      · cases h

/-- Where an object ends, its brace is left. -/
theorem nextKey_close_ne_nil {isFirst : Bool} {cs rest : List Char}
    (h : nextKey isFirst cs = .ok (false, rest)) : rest ≠ [] := by
  unfold nextKey at h
  split at h
  · cases h
  · cases h
    exact List.cons_ne_nil _ _
  · split_ifs at h
    · cases h
    · split at h
      · cases h
      · cases h
      · cases h
      · cases h

theorem readColon_append {cs rest : List Char} (h : readColon cs = .ok rest) (ext : List Char) :
    readColon (cs ++ ext) = .ok (rest ++ ext) := by
  unfold readColon at h
  split at h
  · cases h
  · rename_i heq
    cases h
    simp [readColon, skipGap_append_cons heq]
  · cases h

namespace RecordReader

variable {r : RecordReader ρ α}

theorem readMember_append (hfields : ∀ field ∈ r.fields, ∀ parts, Extends (field.read parts))
    {seen : List String} {parts next : ρ} {key : String} {cs rest : List Char}
    (h : r.readMember seen parts key cs = .ok (next, rest)) (hrest : rest ≠ []) (ext : List Char) :
    r.readMember seen parts key (cs ++ ext) = .ok (next, rest ++ ext) := by
  rw [readMember] at h ⊢
  split at h
  · split at h
    · cases h
    · rename_i cs' hcolon
      rw [readColon_append hcolon ext]
      cases hvalue : skipValue cs' with
      | error e =>
          rw [hvalue] at h
          cases h
      | ok left =>
          rw [hvalue] at h
          cases h
          have hmore : skipValue (cs' ++ ext) = .ok (rest ++ ext) := skipFrom_append hvalue hrest ext
          dsimp only
          rw [hmore]
          rfl
  · rename_i field hfield
    split_ifs at h ⊢
    split at h
    · cases h
    · rename_i cs' hcolon
      rw [readColon_append hcolon ext]
      exact (hfields field (List.mem_of_find?_eq_some hfield) parts).more h hrest ext

theorem readMembers_nil (r : RecordReader ρ α) (fuel : Nat) (isFirst : Bool) (seen : List String)
    (parts : ρ) (last : ρ × List Char) : r.readMembers fuel isFirst seen parts [] ≠ .ok last := by
  cases fuel with
  | zero => nofun
  | succ fuel => nofun

theorem readMembers_append (hfields : ∀ field ∈ r.fields, ∀ parts, Extends (field.read parts))
    {fuel fuel' : Nat} (hfuel : fuel ≤ fuel') {isFirst : Bool} {seen : List String} {parts last : ρ}
    {cs rest : List Char} (h : r.readMembers fuel isFirst seen parts cs = .ok (last, rest))
    (ext : List Char) :
    rest ≠ [] ∧ r.readMembers fuel' isFirst seen parts (cs ++ ext) = .ok (last, rest ++ ext) := by
  induction fuel generalizing fuel' isFirst seen parts cs with
  | zero => cases h
  | succ fuel ih =>
      obtain ⟨fuel', rfl⟩ : ∃ k, fuel' = k + 1 := ⟨fuel' - 1, by omega⟩
      rw [readMembers] at h ⊢
      split at h
      · cases h
      · rename_i rest' hnext
        cases h
        rw [nextKey_append hnext ext]
        exact ⟨nextKey_close_ne_nil hnext, rfl⟩
      · rename_i rest' hnext
        rw [nextKey_append hnext ext]
        dsimp only
        split at h
        · cases h
        · rename_i key left hkey
          rw [readText_append hkey ext]
          dsimp only
          split at h
          · cases h
          · rename_i next left' hmember
            have hleft : left' ≠ [] := by
              rintro rfl
              exact readMembers_nil r fuel false _ next _ h
            rw [readMember_append hfields hmember hleft ext]
            exact ih (by omega) h

theorem readPlaces_nil {index : Nat} {fields : List (FieldReader ρ)} {parts last : ρ}
    {rest : List Char} (h : r.readPlaces index fields parts [] = .ok (last, rest)) : rest = [] := by
  cases fields with
  | nil =>
      cases h
      rfl
  | cons field fields => cases h

theorem readPlaces_append {index : Nat} {fields : List (FieldReader ρ)}
    (hfields : ∀ field ∈ fields, ∀ parts, Extends (field.read parts)) {parts last : ρ}
    {cs rest : List Char} (h : r.readPlaces index fields parts cs = .ok (last, rest))
    (hrest : rest ≠ []) (ext : List Char) :
    r.readPlaces index fields parts (cs ++ ext) = .ok (last, rest ++ ext) := by
  induction fields generalizing index parts cs with
  | nil =>
      cases h
      rfl
  | cons field fields ih =>
      have hothers := fun f hf => hfields f (List.mem_cons_of_mem field hf)
      rw [readPlaces] at h ⊢
      split at h
      · cases h
      · rename_i rest' hnext
        rw [nextItem_append hnext ext]
        dsimp only
        split_ifs at h ⊢
        exact ih hothers h
      · rename_i rest' hnext
        rw [nextItem_append hnext ext]
        dsimp only
        split at h
        · cases h
        · rename_i next left hread
          have hleft : left ≠ [] := by
            rintro rfl
            exact hrest (readPlaces_nil h)
          rw [(hfields field List.mem_cons_self parts).more hread hleft ext]
          exact ih hothers h

/-- A record closes if all its fields at least extend. -/
theorem closes_read (hfields : ∀ field ∈ r.fields, ∀ parts, Extends (field.read parts)) :
    Closes r.read := by
  refine ⟨nofun, fun {cs a rest} h ext => ?_⟩
  rw [read] at h ⊢
  split at h
  · rename_i cs' heq
    simp only [skipGap_append_cons heq]
    split at h
    · cases h
    · rename_i parts left hmembers
      have hfuel : cs'.length + 1 ≤ (cs' ++ ext).length + 1 := by simp
      obtain ⟨hleft, hmore⟩ := readMembers_append hfields hfuel hmembers ext
      rw [hmore]
      cases hclose : r.close parts with
      | error e =>
          rw [hclose] at h
          cases h
      | ok a' =>
          rw [hclose] at h
          cases h
          obtain ⟨c, left, rfl⟩ := List.exists_cons_of_ne_nil hleft
          dsimp only
          rw [hclose]
          rfl
  · rename_i cs' heq
    simp only [skipGap_append_cons heq]
    split at h
    · cases h
    · rename_i parts left hplaces
      split at h
      · cases h
      · rename_i a' hclose
        cases hlist : closeList left with
        | error e =>
            rw [hlist] at h
            cases h
        | ok left' =>
            rw [hlist] at h
            cases h
            have hleft : left ≠ [] := by
              rintro rfl
              cases hlist
            rw [readPlaces_append hfields hplaces hleft ext]
            dsimp only
            rw [hclose]
            dsimp only
            rw [closeList_append hlist ext]
            rfl
  · cases h

end RecordReader

/-! ## Whole texts -/

/-- A text of which the whole is read has no end that could be torn off. -/
theorem parse_torn {read : Reader α} (hread : Closes read) {cs ext : List Char} {a : α}
    (hwhole : read (cs ++ ext) = .ok (a, [])) (hext : ext ≠ []) : ∃ e, parse read cs = .error e := by
  cases hparse : parse read cs with
  | error e => exact ⟨e, rfl⟩
  | ok a' =>
      rw [parse] at hparse
      split at hparse
      · cases hparse
      · rename_i b rest hpart
        have hmore := hread.more hpart ext
        rw [hwhole] at hmore
        exact absurd (List.append_eq_nil_iff.mp (Prod.ext_iff.mp (Except.ok.inj hmore)).2.symm).2 hext

end NetPool.Json
