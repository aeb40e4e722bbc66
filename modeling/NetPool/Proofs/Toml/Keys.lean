import NetPool.Toml.Document

/-! # Keys of TOML tables

A document that names a thing twice is refused, so the keys of each table that is read are distinct. -/

namespace NetPool.Toml

/-- The keys of the value are distinct, if it is a table, and so are those of the tables in it. -/
inductive Value.Distinct : Value → Prop where
  | scalar (s : Scalar) : Distinct (.scalar s)
  | list (items : List Value) : Distinct (.list items)
  | tables (elements : List Entries) : Distinct (.tables elements)
  | table {form : TableForm} {entries : Entries} (hkeys : (entries.map Prod.fst).Nodup)
    (hparts : ∀ e ∈ entries, e.2.Distinct) : Distinct (.table form entries)

/-- The entries of a table. Other values have none. -/
def Value.entries : Value → Entries
  | .table _ entries => entries
  | _ => []

/-- A table with distinct keys. -/
structure Entries.Distinct (es : Entries) : Prop where
  keys : (es.map Prod.fst).Nodup
  parts : ∀ e ∈ es, e.2.Distinct

/-! ## Tables -/

theorem Value.Distinct.entries {v : Value} (h : v.Distinct) : v.entries.Distinct := by
  cases h with
  | table hkeys hparts => exact ⟨hkeys, hparts⟩
  | scalar | list | tables => exact ⟨List.nodup_nil, nofun⟩

namespace Entries

variable {es es' : Entries} {key : String} {v : Value}

theorem Distinct.table (h : es.Distinct) (form : TableForm) : (Value.table form es).Distinct :=
  .table h.keys h.parts

theorem distinct_nil : Entries.Distinct [] := ⟨List.nodup_nil, nofun⟩

theorem mem_of_lookup (h : es.lookup key = some v) : (key, v) ∈ es := by
  induction es with
  | nil => cases h
  | cons e es ih =>
      rw [List.lookup_cons] at h
      split at h
      case h_1 hkey =>
        obtain rfl := Option.some.inj h
        rw [eq_of_beq hkey]
        exact List.mem_cons_self
      case h_2 => exact List.mem_cons_of_mem e (ih h)

theorem lookup_eq_none_iff : es.lookup key = none ↔ key ∉ es.map Prod.fst := by
  rw [List.lookup_eq_none_iff]
  constructor
  · intro h hmem
    obtain ⟨e, he, rfl⟩ := List.mem_map.mp hmem
    simpa using h e he
  · intro h e he
    exact bne_iff_ne.mpr fun heq => h (heq ▸ List.mem_map_of_mem he)

theorem Distinct.of_lookup (h : es.Distinct) (hlookup : es.lookup key = some v) : v.Distinct :=
  h.parts _ (mem_of_lookup hlookup)

theorem Distinct.inner {form : TableForm} {inner : Entries} (h : es.Distinct)
    (hlookup : es.lookup key = some (.table form inner)) : inner.Distinct :=
  (h.of_lookup hlookup).entries

theorem mem_keys_replace {name : String} :
    name ∈ (es.replace key v).map Prod.fst ↔ name = key ∨ name ∈ es.map Prod.fst := by
  induction es with
  | nil => simp [replace]
  | cons e es ih =>
      rw [replace]
      split
      case isTrue hkey => simp [hkey]
      case isFalse => rw [List.map_cons, List.mem_cons, ih, List.map_cons, List.mem_cons, or_left_comm]

theorem Distinct.replace (h : es.Distinct) (hv : v.Distinct) : (es.replace key v).Distinct := by
  induction es with
  | nil => exact ⟨by simp [Entries.replace], by simpa [Entries.replace] using hv⟩
  | cons e es ih =>
      obtain ⟨hfirst, hkeys⟩ := List.nodup_cons.mp h.keys
      obtain ⟨he, hparts⟩ := List.forall_mem_cons.mp h.parts
      rw [Entries.replace]
      split
      case isTrue hkey =>
        exact ⟨List.nodup_cons.mpr ⟨hkey ▸ hfirst, hkeys⟩, List.forall_mem_cons.mpr ⟨hv, hparts⟩⟩
      case isFalse hkey =>
        have hrest := ih ⟨hkeys, hparts⟩
        refine ⟨List.nodup_cons.mpr ⟨?_, hrest.keys⟩, List.forall_mem_cons.mpr ⟨he, hrest.parts⟩⟩
        rw [mem_keys_replace]
        exact not_or.mpr ⟨hkey, hfirst⟩

theorem Distinct.add (h : es.Distinct) (hv : v.Distinct) (hadd : es.add key v = some es') :
    es'.Distinct := by
  rw [Entries.add] at hadd
  split at hadd
  case isTrue => cases hadd
  case isFalse hnew =>
    obtain rfl := Option.some.inj hadd
    have hkey : key ∉ es.map Prod.fst :=
      lookup_eq_none_iff.mp (Option.not_isSome_iff_eq_none.mp hnew)
    refine ⟨?_, List.forall_mem_append.mpr ⟨h.parts, by simpa using hv⟩⟩
    rw [List.map_append]
    refine List.nodup_append.mpr ⟨h.keys, by simp, ?_⟩
    rintro name hname _ hlast rfl
    obtain rfl : name = key := List.mem_singleton.mp hlast
    exact hkey hname

theorem Distinct.replaceTable (h : es.Distinct) {form : TableForm} {inner? : Option Entries}
    (hinner : ∀ inner, inner? = some inner → inner.Distinct)
    (hmap : inner?.map (fun inner => es.replace key (.table form inner)) = some es') :
    es'.Distinct := by
  obtain ⟨inner, hsome, rfl⟩ := Option.map_eq_some_iff.mp hmap
  exact h.replace ((hinner inner hsome).table form)

theorem Distinct.replaceTables (h : es.Distinct) {α : Type} {elements : α → List Entries}
    {a? : Option α} (hmap : a?.map (fun a => es.replace key (.tables (elements a))) = some es') :
    es'.Distinct := by
  obtain ⟨a, -, rfl⟩ := Option.map_eq_some_iff.mp hmap
  exact h.replace (.tables _)

/-- Whatever a table is changed to at the end of a path, all tables on the way keep distinct keys. -/
theorem Distinct.assign {path : List String} (h : es.Distinct) (hv : v.Distinct)
    (hassign : es.assign key v path = some es') : es'.Distinct := by
  induction path generalizing es es' with
  | nil => exact h.add hv hassign
  | cons p path ih =>
      rw [Entries.assign] at hassign
      split at hassign
      case h_1 => exact h.replaceTable (fun _ => ih distinct_nil) hassign
      case h_2 hlookup => exact h.replaceTable (fun _ => ih (h.inner hlookup)) hassign
      case h_3 hlookup =>
        split at hassign
        case isTrue => cases hassign
        case isFalse => exact h.replaceTable (fun _ => ih (h.inner hlookup)) hassign
      case h_4 =>
        split at hassign
        case isTrue => cases hassign
        case isFalse => exact h.replaceTables hassign
      case h_5 => cases hassign

theorem Distinct.descend {change : Entries → Option Entries}
    (hchange : ∀ {es es' : Entries}, es.Distinct → change es = some es' → es'.Distinct)
    {path : List String} (h : es.Distinct) (hdescend : es.descend change path = some es') :
    es'.Distinct := by
  induction path generalizing es es' with
  | nil => exact hchange h hdescend
  | cons p path ih =>
      rw [Entries.descend] at hdescend
      split at hdescend
      case h_1 => exact h.replaceTable (fun _ => ih distinct_nil) hdescend
      case h_2 => cases hdescend
      case h_3 hlookup => exact h.replaceTable (fun _ => ih (h.inner hlookup)) hdescend
      case h_4 => exact h.replaceTables hdescend
      case h_5 => cases hdescend

theorem Distinct.foldlM {α : Type} {step : Entries → α → Option Entries} {P : α → Prop}
    (hstep : ∀ {es es' : Entries} {a : α}, es.Distinct → P a → step es a = some es' → es'.Distinct)
    {as : List α} (has : ∀ a ∈ as, P a) (h : es.Distinct) (hfold : as.foldlM step es = some es') :
    es'.Distinct := by
  induction as generalizing es with
  | nil => rwa [← Option.some.inj hfold]
  | cons a as ih =>
      obtain ⟨ha, has⟩ := List.forall_mem_cons.mp has
      rw [List.foldlM_cons] at hfold
      obtain ⟨next, hnext, hrest⟩ := Option.bind_eq_some_iff.mp hfold
      exact ih has (hstep h ha hnext) hrest

theorem Distinct.assignAll {as : List Assignment} (has : ∀ a ∈ as, a.value.Distinct)
    (h : es.Distinct) (hassign : es.assignAll as = some es') : es'.Distinct := by
  refine h.foldlM (P := fun a => a.value.Distinct) ?_ has hassign
  intro es es' a hes ha hstep
  exact hes.assign ha hstep

end Entries

theorem Section.distinct_addTo {s : Section} (hs : ∀ a ∈ s.assignments, a.value.Distinct)
    {es es' : Entries} (h : es.Distinct) (hadd : s.addTo es = some es') : es'.Distinct := by
  rw [Section.addTo] at hadd
  split at hadd
  case h_1 => exact h.replaceTable (fun _ => Entries.distinct_nil.assignAll hs) hadd
  case h_2 hlookup => exact h.replaceTable (fun _ => (h.inner hlookup).assignAll hs) hadd
  case h_3 => exact h.replaceTables hadd
  case h_4 => exact h.replaceTables hadd
  case h_5 => cases hadd

theorem Entries.distinct_ofSections {as : List Assignment} {ss : List Section} {es : Entries}
    (has : ∀ a ∈ as, a.value.Distinct) (hss : ∀ s ∈ ss, ∀ a ∈ s.assignments, a.value.Distinct)
    (h : Entries.ofSections as ss = some es) : es.Distinct := by
  obtain ⟨front, hfront, hsections⟩ := Option.bind_eq_some_iff.mp h
  exact (distinct_nil.assignAll has hfront).foldlM
    (fun h hs => h.descend (Section.distinct_addTo hs)) hss hsections

/-! ## Readers -/

/-- All that is read has the property. -/
def Reader.Yields {α : Type} (P : α → Prop) (r : Reader α) : Prop :=
  ∀ cs a rest, r cs = some (a, rest) → P a

namespace Reader.Yields

variable {α β : Type} {P : α → Prop} {Q : β → Prop}

theorem pure {a : α} (h : P a) : Yields P (Pure.pure a) := by
  intro cs b rest hread
  cases hread
  exact h

theorem failure : Yields P (Alternative.failure : Reader α) := nofun

theorem bind {r : Reader α} {next : α → Reader β} (hr : Yields P r)
    (hnext : ∀ a, P a → Yields Q (next a)) : Yields Q (r >>= next) := by
  intro cs b rest hread
  obtain ⟨⟨a, mid⟩, ha, hb⟩ := Option.bind_eq_some_iff.mp hread
  exact hnext a (hr cs a mid ha) mid b rest hb

theorem andThen {r : Reader α} {next : α → Reader β} (hnext : ∀ a, Yields Q (next a)) :
    Yields Q (r >>= next) :=
  bind (P := fun _ => True) (fun _ _ _ _ => trivial) fun a _ => hnext a

end Reader.Yields

open Reader (Yields)

theorem yields_assignment {value : Reader Value} (h : Yields Value.Distinct value) :
    Yields (fun a => a.value.Distinct) (assignment value) :=
  .andThen fun _ => .andThen fun _ => .andThen fun _ => .bind h fun _ hv => .andThen fun _ => .pure hv

theorem yields_inlineAssignments {value : Reader Value} (h : Yields Value.Distinct value)
    (fuel : Nat) : Yields (fun as => ∀ a ∈ as, a.value.Distinct) (inlineAssignments value fuel) := by
  induction fuel with
  | zero => exact .failure
  | succ fuel ih =>
      refine .bind (yields_assignment h) fun a ha => .andThen fun cs => ?_
      split
      · exact .andThen fun _ => .bind ih fun as has => .pure (List.forall_mem_cons.mpr ⟨ha, has⟩)
      · exact .andThen fun _ => .pure (List.forall_mem_singleton.mpr ha)
      · exact .failure

theorem yields_inlineTable {value : Reader Value} (h : Yields Value.Distinct value) :
    Yields Value.Distinct (inlineTable value) := by
  refine .andThen fun _ => .andThen fun cs => ?_
  split
  · exact .andThen fun _ => .pure (Entries.distinct_nil.table _)
  · refine .bind (yields_inlineAssignments h _) fun as has => ?_
    have hentries : Yields Entries.Distinct (StateT.lift (Entries.assignAll [] as)) := by
      intro cs es rest hread
      obtain ⟨es', hes, heq⟩ := Option.bind_eq_some_iff.mp hread
      cases heq
      exact Entries.distinct_nil.assignAll has hes
    exact .bind hentries fun es hes => .pure (hes.table _)

theorem yields_value (depth : Nat) : Yields Value.Distinct (value depth) := by
  induction depth with
  | zero => exact .andThen fun s => .pure (.scalar s)
  | succ depth ih =>
      -- The next character decides how to go on before anything is read.
      intro cs v rest hread
      simp only [value] at hread
      split at hread
      · obtain ⟨⟨items, rest⟩, -, heq⟩ := Option.map_eq_some_iff.mp hread
        cases heq
        exact .list items
      · exact yields_inlineTable ih _ v rest hread
      · obtain ⟨⟨s, rest⟩, -, heq⟩ := Option.map_eq_some_iff.mp hread
        cases heq
        exact .scalar s

/-! ## Documents -/

/-- What a line assigns has distinct keys. -/
def Line.Distinct : Line → Prop
  | .assignment a => a.value.Distinct
  | .header .. => True

theorem yields_header (kind : HeaderKind) : Yields Line.Distinct (header kind) := by
  refine .andThen fun key => .andThen fun _ => ?_
  split
  · exact .andThen fun _ => .andThen fun _ => .pure trivial
  · exact .andThen fun _ => .pure trivial

theorem yields_line : Yields Line.Distinct line := by
  intro cs l rest hread
  unfold line at hread
  split at hread
  · exact yields_header _ _ l rest hread
  · exact yields_header _ _ l rest hread
  · have hassignment : Yields Line.Distinct (do
        let a ← assignment (value depthLimit)
        restOfLine
        return .assignment a) :=
      .bind (yields_assignment (yields_value depthLimit)) fun a ha => .andThen fun _ => .pure ha
    exact hassignment cs l rest hread

theorem distinct_of_lines {fuel : Nat} {cs : List Char} {ls : List Line}
    (h : lines fuel cs = some ls) : ∀ l ∈ ls, l.Distinct := by
  induction fuel generalizing cs ls with
  | zero => cases h
  | succ fuel ih =>
      rw [lines] at h
      split at h
      · cases h
        nofun
      · exact ih h
      · obtain ⟨⟨_, rest⟩, -, hrest⟩ := Option.bind_eq_some_iff.mp h
        exact ih hrest
      · obtain ⟨⟨l, rest⟩, hl, h⟩ := Option.bind_eq_some_iff.mp h
        obtain ⟨ls, hls, heq⟩ := Option.bind_eq_some_iff.mp h
        cases heq
        exact List.forall_mem_cons.mpr ⟨yields_line _ l rest hl, ih hls⟩

theorem distinct_of_arrange {ls : List Line} (h : ∀ l ∈ ls, l.Distinct) :
    (∀ a ∈ (arrange ls).1, a.value.Distinct) ∧
      ∀ s ∈ (arrange ls).2, ∀ a ∈ s.assignments, a.value.Distinct := by
  induction ls with
  | nil => exact ⟨nofun, nofun⟩
  | cons l ls ih =>
      obtain ⟨hl, hls⟩ := List.forall_mem_cons.mp h
      obtain ⟨has, hss⟩ := ih hls
      cases l with
      | assignment a => exact ⟨List.forall_mem_cons.mpr ⟨hl, has⟩, hss⟩
      | header kind path key => exact ⟨nofun, List.forall_mem_cons.mpr ⟨has, hss⟩⟩

/-- The keys of each table of a document are distinct. -/
theorem distinct_of_read? {s : String} {entries : Entries} (h : read? s = some entries) :
    entries.Distinct := by
  obtain ⟨ls, hls, h⟩ := Option.bind_eq_some_iff.mp h
  obtain ⟨has, hss⟩ := distinct_of_arrange (distinct_of_lines hls)
  exact Entries.distinct_ofSections has hss h

end NetPool.Toml
