import NetPool.Proofs.Action
import NetPool.Proofs.Asset.Json
import NetPool.Proofs.Files.Content

/-! # What a ledger shows

A ledger shows entries if the slot of its path holds content that stands for them. Loading gives
these entries, storing replaces them or leaves them, and whoever spares the path leaves them, too.
Two ways of standing for entries matter: content that lists them, and exactly the content that is
written for them. -/

namespace NetPool.Ledger

open NetPool.Effect NetPool.Action FileSystem

variable {files files' : FileSystem} {path : String} {es : List Asset}

/-- The entries in a slot. -/
def decodeSlot : Option ByteArray → Except Error (List Asset)
  | none => .ok []
  | some content => decode content

/-- What is stored for entries: nothing for none. -/
def image? : List Asset → Option ByteArray
  | [] => none
  | e :: es => some (encode (e :: es))

theorem decodeSlot_image? (es : List Asset) : decodeSlot (image? es) = .ok es := by
  cases es with
  | nil => rfl
  | cons e es => exact decode_encode (e :: es)

theorem outcome_load_of_entries {w : World} (h : entries w.files path = .ok es) :
    (load path).outcome w = (.ok es, w) := by
  rw [load, outcome_observe, h]

theorem outcome_load_of_error {w : World} {e : Error} (h : entries w.files path = .error e) :
    (load path).outcome w = (.error e, w) := by
  rw [load, outcome_observe, h]

/-- The ledger loads to the entries, and directories that are missing hide no others: no ledger of a
plain path is hidden, and any other one loads to them still once these directories are made. -/
def Lists (files : FileSystem) (path : String) (es : List Asset) : Prop :=
  entries files path = .ok es ∧
    (Plain path ∧ files.Rooted ∨ entries (files.makeParents path).2 path = .ok es)

/-- The path holds exactly what is written for the entries, and no file if there are none.
Directories that are missing hide nothing else. -/
def Stores (files : FileSystem) (path : String) (es : List Asset) : Prop :=
  files.read path = readSlot (image? es) ∧
    (Plain path ∧ files.Rooted ∨ (files.makeParents path).2.read path = readSlot (image? es))

/-- A way in which the content of a slot stands for entries. -/
structure Represents (R : Option ByteArray → List Asset → Prop) : Prop where
  image : ∀ es, R (image? es) es
  loads : ∀ {content? es}, R content? es → decodeSlot content? = .ok es

theorem represents_decodeSlot : Represents fun content? es => decodeSlot content? = .ok es :=
  ⟨decodeSlot_image?, id⟩

theorem represents_image? : Represents fun content? es => content? = image? es :=
  ⟨fun _ => rfl, fun h => h ▸ decodeSlot_image? _⟩

/-- The ledger shows the entries: its slot stands for them, and it is open if there are any. The
empty path names no slot and shows no entries. -/
inductive Shows (R : Option ByteArray → List Asset → Prop) (files : FileSystem) (path : String)
    (es : List Asset) : Prop
  | nowhere (hpath : path = "") (hes : es = [])
  | slot {dirs name content?} (hslot : Slot files path dirs name content?) (hcontent : R content? es)
      (hopen : es ≠ [] → Open files path dirs)

section Shows

variable {R : Option ByteArray → List Asset → Prop}

/-- Whoever spares the path leaves what the ledger shows. -/
theorem Shows.spared (h : Shows R files path es) (hspares : Spares path files files') :
    Shows R files' path es := by
  cases h with
  | nowhere hpath hes => exact .nowhere hpath hes
  | slot hslot hcontent hopen =>
      exact .slot (hslot.spared hspares) hcontent fun hes => (hopen hes).spared hslot hspares

theorem entries_of_read_eq (h : files'.read path = files.read path) :
    entries files' path = entries files path := by
  rw [entries, entries, h]

theorem entries_of_read {content? : Option ByteArray} (h : files.read path = readSlot content?) :
    entries files path = decodeSlot content? := by
  rw [entries, h]
  cases content? with
  | none => rfl
  | some content => rfl

theorem entries_of_content {content : ByteArray} (h : files.read path = .ok content) :
    entries files path = decode content :=
  @entries_of_read files path (some content) h

theorem eq_nil_of_not_open {dirs : List String} (hopen : es ≠ [] → Open files path dirs)
    (hthere : ¬ Open files path dirs) : es = [] := by
  cases es with
  | nil => rfl
  | cons e es => exact absurd (hopen (List.cons_ne_nil e es)) hthere

theorem entries_empty (files : FileSystem) : entries files "" = .ok [] := rfl

/-- The ledger loads to the entries that it shows. -/
theorem Shows.entries (hR : Represents R) (h : Shows R files path es) :
    Ledger.entries files path = .ok es := by
  cases h with
  | nowhere hpath hes => rw [hpath, hes, entries_empty]
  | @slot dirs name content? hslot hcontent hopen =>
      by_cases hthere : Open files path dirs
      · rw [entries_of_read (hslot.read hthere), hR.loads hcontent]
      · have hread : files.read path = readSlot none := hslot.read_of_not_open hthere
        rw [entries_of_read hread, eq_nil_of_not_open hopen hthere]
        rfl

/-- Making the directories above the ledger changes nothing that it shows. -/
theorem Shows.makeParents (h : Shows R files path es) :
    Shows R (files.makeParents path).2 path es := by
  cases h with
  | nowhere hpath hes => exact .nowhere hpath hes
  | slot hslot hcontent hopen =>
      exact Shows.spared (.slot hslot hcontent hopen) hslot.makeParents.2.1

theorem Shows.removed (hR : Represents R) (h : Shows R files path es)
    (hremove : files.removeIfPresent path = .ok files') : Shows R files' path [] := by
  cases h with
  | nowhere hpath hes =>
      rw [hpath] at hremove
      cases hremove
      exact .nowhere hpath rfl
  | @slot dirs name content? hslot hcontent hopen =>
      by_cases hthere : Open files path dirs
      · obtain ⟨hslot', _⟩ := hslot.removed hthere hremove
        exact .slot hslot' (hR.image []) fun hes => absurd rfl hes
      · cases (hslot.removeIfPresent_of_not_open hthere).symm.trans hremove
        rw [eq_nil_of_not_open hopen hthere] at hcontent
        exact .slot hslot hcontent fun hes => absurd rfl hes

theorem Shows.write (hR : Represents R) (h : Shows R files path es) (e : Asset) (new : List Asset)
    (hwrite : (files.makeParents path).2.write path (encode (e :: new)) = .ok files') :
    Shows R files' path (e :: new) := by
  cases h with
  | nowhere hpath hes =>
      rw [hpath] at hwrite
      cases hwrite
  | slot hslot hcontent hopen =>
      obtain ⟨_, hspares, hthere⟩ := hslot.makeParents
      obtain ⟨hslot', hthere'⟩ := (hslot.spared hspares).write hthere hwrite
      exact .slot hslot' (hR.image (e :: new)) fun _ => hthere'

/-- Storing replaces what the ledger shows, or fails and leaves it. -/
theorem Shows.store (hR : Represents R) {w : World} (h : Shows R w.files path es)
    (new : List Asset) :
    (∃ w', (store path new).outcome w = (.ok (), w') ∧ Shows R w'.files path new) ∨
      ∃ e w', (store path new).outcome w = (.error e, w') ∧ Shows R w'.files path es := by
  cases new with
  | nil =>
      rw [Ledger.store, outcome_onFiles]
      cases hremove : w.files.removeIfPresent path with
      | ok files' => exact .inl ⟨_, rfl, h.removed hR hremove⟩
      | error e => exact .inr ⟨_, _, rfl, h⟩
  | cons e new =>
      rw [Ledger.store, outcome_bind, outcome_changingFiles]
      cases (w.files.makeParents path).1 with
      | error e' => exact .inr ⟨.io e', _, rfl, h.makeParents⟩
      | ok u =>
          simp only [mapError_ok, outcome_onFiles, World.withFiles]
          split
          · rename_i hwrite
            exact .inl ⟨_, rfl, h.write hR e new hwrite⟩
          · exact .inr ⟨_, _, rfl, h.makeParents⟩

end Shows

/-! ## Entries that are listed, and content that is stored -/

theorem eq_empty_of_textFault? {e : IoError} (hfault : textFault? path = some e)
    (he : e = .notFound) : path = "" := by
  subst he
  rw [textFault?] at hfault
  split at hfault
  · cases hfault
  · split at hfault
    · rename_i hempty
      simpa using hempty
    · split at hfault
      · cases hfault
      · cases hfault

theorem read_of_textFault? {e : IoError} (hfault : textFault? path = some e) :
    files.read path = .error e := by
  rw [FileSystem.read, look, FileSystem.locate, hfault]

theorem eq_notFound_of_entries {e : IoError} (h : entries files path = .ok es)
    (hread : files.read path = .error e) : e = .notFound := by
  rw [entries, hread] at h
  cases e <;> first | rfl | cases h

/-- What a ledger of a plain path holds does not depend on which directories above it are there. -/
theorem Lists.made (h : Lists files path es) : entries (files.makeParents path).2 path = .ok es := by
  obtain ⟨hnow, ⟨hplain, hrooted⟩ | hlater⟩ := h
  · have hread := hplain.read_makeParents hrooted fun e he => eq_notFound_of_entries hnow he
    exact (entries_of_read_eq hread).trans hnow
  · exact hlater

theorem lists_iff : Lists files path es ↔
    Shows (fun content? es => decodeSlot content? = .ok es) files path es := by
  constructor
  · intro h
    have hnow := h.1
    have hlater := h.made
    cases hfault : textFault? path with
    | some e =>
        have hread : files.read path = .error e := read_of_textFault? hfault
        have hpath := eq_empty_of_textFault? hfault (eq_notFound_of_entries hnow hread)
        rw [hpath, entries_empty] at hnow
        exact .nowhere hpath (Except.ok.inj hnow).symm
    | none =>
        obtain ⟨dirs, name, content?, hslot, hread⟩ :=
          exists_slot hfault fun e he => eq_notFound_of_entries hlater he
        rw [entries_of_read hread] at hlater
        refine .slot hslot hlater fun hes => ?_
        by_cases hthere : Open files path dirs
        · exact hthere
        · have hread : files.read path = readSlot none := hslot.read_of_not_open hthere
          rw [entries_of_read hread] at hnow
          exact absurd (Except.ok.inj hnow).symm hes
  · intro h
    exact ⟨h.entries represents_decodeSlot, .inr (h.makeParents.entries represents_decodeSlot)⟩

theorem readSlot_injective {content? content?' : Option ByteArray}
    (h : readSlot content? = readSlot content?') : content? = content?' := by
  cases content? with
  | none =>
      cases content?' with
      | none => rfl
      | some content => cases h
  | some content =>
      cases content?' with
      | none => cases h
      | some content' => rw [Except.ok.inj h]

theorem eq_notFound_of_readSlot {content? : Option ByteArray} {e : IoError}
    (h : .error e = readSlot content?) : e = .notFound := by
  cases content? with
  | none => exact Except.error.inj h
  | some content => cases h

theorem eq_nil_of_image? (h : image? es = none) : es = [] := by
  cases es with
  | nil => rfl
  | cons e es => cases h

/-- The path holds what is written for the entries that the ledger shows. -/
theorem Shows.read_image (h : Shows (fun content? es => content? = image? es) files path es) :
    files.read path = readSlot (image? es) := by
  cases h with
  | nowhere hpath hes =>
      rw [hpath, hes]
      rfl
  | @slot dirs name content? hslot hcontent hopen =>
      by_cases hthere : Open files path dirs
      · rw [hslot.read hthere, hcontent]
      · rw [hslot.read_of_not_open hthere, eq_nil_of_not_open hopen hthere]
        rfl

theorem Stores.made (h : Stores files path es) :
    (files.makeParents path).2.read path = readSlot (image? es) := by
  obtain ⟨hnow, ⟨hplain, hrooted⟩ | hlater⟩ := h
  · have hread := hplain.read_makeParents hrooted fun e he =>
      eq_notFound_of_readSlot (he.symm.trans hnow)
    exact hread.trans hnow
  · exact hlater

theorem stores_iff : Stores files path es ↔
    Shows (fun content? es => content? = image? es) files path es := by
  constructor
  · intro h
    have hnow := h.1
    have hlater := h.made
    cases hfault : textFault? path with
    | some e =>
        rw [read_of_textFault? hfault] at hnow
        have he := eq_notFound_of_readSlot hnow
        rw [he] at hnow
        have himage : readSlot none = readSlot (image? es) := hnow
        exact .nowhere (eq_empty_of_textFault? hfault he)
          (eq_nil_of_image? (readSlot_injective himage).symm)
    | none =>
        obtain ⟨dirs, name, content?, hslot, hread⟩ :=
          exists_slot hfault fun e he => eq_notFound_of_readSlot (he.symm.trans hlater)
        refine .slot hslot (readSlot_injective (hread.symm.trans hlater)) fun hes => ?_
        by_cases hthere : Open files path dirs
        · exact hthere
        · have hread : files.read path = readSlot none := hslot.read_of_not_open hthere
          exact absurd (eq_nil_of_image? (readSlot_injective (hread.symm.trans hnow)).symm) hes
  · intro h
    exact ⟨h.read_image, .inr h.makeParents.read_image⟩

end NetPool.Ledger
