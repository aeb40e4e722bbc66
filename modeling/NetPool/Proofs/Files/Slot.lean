import NetPool.Proofs.Files.Route

/-! # Slots

The slot of a path is the place that it leads to, seen as something that holds one file or none. As
long as nobody puts anything in the way, the file in it is what reading the path gives once the
directories above are there, and writing and removing change nothing else. -/

namespace NetPool.FileSystem

open NetPool.Path

variable {fs fs' fs'' : FileSystem} {path : String}

/-- The place that a path leads to if nothing is in the way. -/
def placeOf (fs : FileSystem) (path : String) : List String :=
  reach (fs.start (.ofText path)) (Path.ofText path).parts

/-- The places that a path enters by name, its own included. -/
def routeOf (fs : FileSystem) (path : String) : List (List String) :=
  route (fs.start (.ofText path)) (Path.ofText path).parts

/-- The path may get a file of that content, or lose its file. -/
def Allows (fs : FileSystem) (path : String) (content? : Option ByteArray) : Prop :=
  fs.refusal? (fs.placeOf path) content? = none

theorem mem_routeOf_of_dropLast {q : List String}
    (hq : q ∈ route (fs.start (.ofText path)) (Path.ofText path).parts.dropLast) :
    q ∈ fs.routeOf path := by
  rcases List.eq_nil_or_concat (Path.ofText path).parts with hparts | ⟨dirs, name, hparts⟩
  · rw [hparts] at hq
    exact absurd hq List.not_mem_nil
  · rw [List.concat_eq_append] at hparts
    rw [hparts, List.dropLast_concat] at hq
    rw [routeOf, hparts, route_append]
    exact List.mem_append_left _ hq

/-! ## Sparing a path -/

/-- The file that the path leads to is untouched. On the way there, directories may have been made
where something was missing. -/
structure Spares (path : String) (fs fs' : FileSystem) : Prop where
  workDir : fs'.workDir = fs.workDir
  place : fs'.node? (fs.placeOf path) = fs.node? (fs.placeOf path)
  route : ∀ q ∈ fs.routeOf path, Kept fs fs' q

theorem placeOf_eq_of_workDir (h : fs'.workDir = fs.workDir) (path : String) :
    fs'.placeOf path = fs.placeOf path := by
  rw [placeOf, placeOf, start_eq_of_workDir h]

theorem routeOf_eq_of_workDir (h : fs'.workDir = fs.workDir) (path : String) :
    fs'.routeOf path = fs.routeOf path := by
  rw [routeOf, routeOf, start_eq_of_workDir h]

theorem Spares.refl (path : String) (fs : FileSystem) : Spares path fs fs :=
  ⟨rfl, rfl, fun q _ => .refl fs q⟩

theorem Spares.trans (h : Spares path fs fs') (h' : Spares path fs' fs'') :
    Spares path fs fs'' := by
  have hplace := h'.place
  rw [placeOf_eq_of_workDir h.workDir] at hplace
  refine ⟨h'.workDir.trans h.workDir, hplace.trans h.place, fun q hq => (h.route q hq).trans ?_⟩
  exact h'.route q (by rwa [routeOf_eq_of_workDir h.workDir])

/-! ## New files -/

/-- The file system with a new file, still empty, at a place. -/
def created (fs : FileSystem) (place : List String) : FileSystem :=
  { fs.set place (some (.file fs.nextId .empty)) with nextId := fs.nextId + 1 }

theorem node?_created (fs : FileSystem) (place q : List String) :
    (fs.created place).node? q = if q = place then some (.file fs.nextId .empty) else fs.node? q :=
  rfl

theorem openOrCreate_of_entry {q : List String} (h : fs.locate path = .ok (.entry q .plain)) :
    fs.openOrCreate path =
      match fs.node? q with
      | some .directory => .error .isDirectory
      | some (.file id _) => .ok (q, id, fs)
      | none => .ok (q, fs.nextId, fs.created q) := by
  rw [openOrCreate, h]
  rfl

theorem openOrCreate_of_not_plain {q : List String} {ending : PathEnding}
    (h : fs.locate path = .ok (.entry q ending)) (hending : ending ≠ .plain) :
    ∃ e, fs.openOrCreate path = .error e := by
  rw [openOrCreate, h]
  cases ending with
  | plain => exact absurd rfl hending
  | slash => exact ⟨_, rfl⟩
  | point =>
      rcases hnode : fs.node? q with _ | _ | ⟨id, content⟩
      · exact ⟨.notFound, by simp [hnode]⟩
      · exact ⟨.isDirectory, by simp [hnode]⟩
      · exact ⟨.notDirectory, by simp [hnode]⟩

/-! ## The slot of a path -/

/-- What reading a slot gives. -/
def readSlot : Option ByteArray → Except IoError ByteArray
  | none => .error .notFound
  | some content => .ok content

/-- Nothing is in the way to the place of the path, where there is a file of that content, or
nothing. -/
structure Slot (fs : FileSystem) (path : String) (dirs : List String) (name : String)
    (content? : Option ByteArray) : Prop where
  fault : textFault? path = none
  parts : (Path.ofText path).parts = dirs ++ [name]
  named : name ≠ upName
  short : name.utf8ByteSize ≤ maxNameLength
  passable : Passable fs (fs.start (.ofText path)) dirs
  aside : fs.placeOf path ∉ route (fs.start (.ofText path)) dirs
  vacant : content? = none → fs.node? (fs.placeOf path) = none
  filled : ∀ content, content? = some content →
    (Path.ofText path).ending = .plain ∧ ∃ id, fs.node? (fs.placeOf path) = some (.file id content)

/-- All directories above the place of a slot are there. -/
def Open (fs : FileSystem) (path : String) (dirs : List String) : Prop :=
  fs.follow (fs.start (.ofText path)) dirs = .ok (reach (fs.start (.ofText path)) dirs)

section Slots

variable {dirs : List String} {name : String} {content? : Option ByteArray}

theorem Slot.placeOf_eq (h : Slot fs path dirs name content?) :
    fs.placeOf path = reach (fs.start (.ofText path)) dirs ++ [name] := by
  rw [placeOf, h.parts, reach_concat _ _ h.named]

theorem Slot.mem_routeOf {q : List String} (h : Slot fs path dirs name content?)
    (hq : q ∈ route (fs.start (.ofText path)) dirs) : q ∈ fs.routeOf path := by
  rw [routeOf, h.parts, route_append]
  exact List.mem_append_left _ hq

theorem Slot.spared (h : Slot fs path dirs name content?) (hspares : Spares path fs fs') :
    Slot fs' path dirs name content? := by
  have hstart := start_eq_of_workDir hspares.workDir (.ofText path)
  have hplace := placeOf_eq_of_workDir hspares.workDir path
  refine ⟨h.fault, h.parts, h.named, h.short, ?_, ?_, ?_, ?_⟩
  · rw [hstart]
    exact h.passable.kept fun q hq => hspares.route q (h.mem_routeOf hq)
  · rw [hstart, hplace]
    exact h.aside
  · rw [hplace, hspares.place]
    exact h.vacant
  · rw [hplace, hspares.place]
    exact h.filled

theorem Open.spared (h : Slot fs path dirs name content?) (hopen : Open fs path dirs)
    (hspares : Spares path fs fs') : Open fs' path dirs := by
  rw [Open, start_eq_of_workDir hspares.workDir]
  exact follow_kept hopen fun q hq => hspares.route q (h.mem_routeOf hq)

/-- The path of a slot leads to its place once the directories above are there. -/
theorem Slot.locate (h : Slot fs path dirs name content?) (hopen : Open fs path dirs) :
    fs.locate path = .ok (.entry (fs.placeOf path) (Path.ofText path).ending) := by
  have hlong : ¬ name.utf8ByteSize > maxNameLength := Nat.not_lt.mpr h.short
  rw [FileSystem.locate, h.fault]
  simp only [locatePath_concat fs h.parts, if_neg h.named, if_neg hlong]
  rw [show fs.follow _ dirs = _ from hopen, h.placeOf_eq]

/-- Before that, it leads nowhere. -/
theorem Slot.locate_of_not_open (h : Slot fs path dirs name content?)
    (hopen : ¬ Open fs path dirs) : fs.locate path = .error .notFound := by
  rw [FileSystem.locate, h.fault]
  simp only [locatePath_concat fs h.parts, if_neg h.named]
  rcases h.passable.follow with hfollow | hfollow
  · exact absurd hfollow hopen
  · rw [hfollow]

theorem Slot.read (h : Slot fs path dirs name content?) (hopen : Open fs path dirs) :
    fs.read path = readSlot content? := by
  rw [FileSystem.read, look, h.locate hopen]
  cases hcontent : content? with
  | none => simp [h.vacant hcontent, readSlot]
  | some content =>
      obtain ⟨hending, id, hnode⟩ := h.filled content hcontent
      simp [hnode, hending, readSlot]

theorem Slot.read_of_not_open (h : Slot fs path dirs name content?) (hopen : ¬ Open fs path dirs) :
    fs.read path = .error .notFound := by
  rw [FileSystem.read, look, h.locate_of_not_open hopen]

/-- Making the directories above a slot opens it. -/
theorem Slot.makeParents (h : Slot fs path dirs name content?) :
    (fs.makeParents path).1 = .ok () ∧ Spares path fs (fs.makeParents path).2 ∧
      Open (fs.makeParents path).2 path dirs := by
  have hmade := makeParents_spec fs h.fault
  rw [h.parts, List.dropLast_concat] at hmade
  have hok := hmade.ok h.passable
  refine ⟨hok, ⟨hmade.workDir, hmade.frame _ h.aside, fun q _ => hmade.kept q⟩, ?_⟩
  rw [Open, start_eq_of_workDir hmade.workDir]
  exact hmade.reached hok

theorem Slot.set (h : Slot fs path dirs name content?) (node : Option Node)
    (new? : Option ByteArray) (hvacant : new? = none → node = none)
    (hfilled : ∀ content, new? = some content →
      (Path.ofText path).ending = .plain ∧ ∃ id, node = some (.file id content)) :
    Slot (fs.set (fs.placeOf path) node) path dirs name new? := by
  have hnode : (fs.set (fs.placeOf path) node).node? (fs.placeOf path) = node := by
    rw [node?_set, if_pos rfl]
  refine ⟨h.fault, h.parts, h.named, h.short, ⟨h.passable.short, fun q hq id content hq' => ?_⟩,
    h.aside, fun hnew => ?_, fun content hnew => ?_⟩
  · rw [node?_set, if_neg] at hq'
    · exact h.passable.free q hq id content hq'
    · rintro rfl
      exact h.aside hq
  · exact hnode.trans (hvacant hnew)
  · obtain ⟨hending, id, hid⟩ := hfilled content hnew
    exact ⟨hending, id, hnode.trans hid⟩

theorem Open.set (h : Slot fs path dirs name content?) (hopen : Open fs path dirs)
    (node : Option Node) : Open (fs.set (fs.placeOf path) node) path dirs := by
  refine follow_of_directories (fun hname hup => short_of_follow hopen hname hup) fun q hq => ?_
  rw [node?_set, if_neg]
  · exact directory_of_follow hopen hq
  · rintro rfl
    exact h.aside hq

/-- Removing what is in a slot leaves it vacant. It does not fail unless it is refused. -/
theorem Slot.removeIfPresent (h : Slot fs path dirs name content?) (hopen : Open fs path dirs)
    (hallowed : fs.Allows path none) :
    ∃ fs', fs.removeIfPresent path = .ok fs' ∧ Slot fs' path dirs name none ∧
      Open fs' path dirs := by
  rw [Allows] at hallowed
  rw [FileSystem.removeIfPresent, remove, h.locate hopen]
  cases hcontent : content? with
  | none =>
      subst hcontent
      exact ⟨fs, by simp [hallowed, h.vacant rfl], h, hopen⟩
  | some content =>
      obtain ⟨hending, id, hnode⟩ := h.filled content hcontent
      refine ⟨fs.set (fs.placeOf path) none, by simp [hallowed, hnode, hending],
        h.set none none (fun _ => rfl) (fun _ he => by cases he), Open.set h hopen none⟩

theorem Refusal.error_ne_notFound (r : Refusal) : r.error ≠ .notFound := by
  cases r <;> decide

theorem Slot.removeIfPresent_of_refused (h : Slot fs path dirs name content?)
    (hopen : Open fs path dirs) {r : Refusal}
    (hrefused : fs.refusal? (fs.placeOf path) none = some r) :
    fs.removeIfPresent path = .error r.error := by
  rw [FileSystem.removeIfPresent, remove, h.locate hopen]
  simp only [hrefused]
  split
  · rename_i heq
    exact absurd (Except.error.inj heq) (Refusal.error_ne_notFound r)
  · rfl

/-- A slot is vacant after what was in it has been removed. -/
theorem Slot.removed (h : Slot fs path dirs name content?) (hopen : Open fs path dirs)
    (hremove : fs.removeIfPresent path = .ok fs') :
    Slot fs' path dirs name none ∧ Open fs' path dirs := by
  cases hrefusal : fs.refusal? (fs.placeOf path) none with
  | none =>
      obtain ⟨fs'', hremove', hslot⟩ := h.removeIfPresent hopen hrefusal
      cases hremove.symm.trans hremove'
      exact hslot
  | some r => cases hremove.symm.trans (h.removeIfPresent_of_refused hopen hrefusal)

theorem Slot.removeIfPresent_of_not_open (h : Slot fs path dirs name content?)
    (hopen : ¬ Open fs path dirs) : fs.removeIfPresent path = .ok fs := by
  rw [FileSystem.removeIfPresent, remove, h.locate_of_not_open hopen]

/-- A new file fills an open slot. -/
theorem Slot.created (h : Slot fs path dirs name none) (hopen : Open fs path dirs)
    (hplain : (Path.ofText path).ending = .plain) :
    Slot (fs.created (fs.placeOf path)) path dirs name (some .empty) ∧
      Open (fs.created (fs.placeOf path)) path dirs := by
  have hset := h.set (some (.file fs.nextId .empty)) (some .empty) nofun fun content hcontent =>
    ⟨hplain, fs.nextId, by rw [Option.some.inj hcontent]⟩
  have hspares : Spares path (fs.set (fs.placeOf path) (some (.file fs.nextId .empty)))
      (fs.created (fs.placeOf path)) := ⟨rfl, rfl, fun q _ => .inl rfl⟩
  exact ⟨hset.spared hspares, (Open.set h hopen (some (.file fs.nextId .empty))).spared hset hspares⟩

/-- Writing into an open slot fills it. It fails only if the path does not end as that of a file, or
if it is refused. -/
theorem Slot.exists_write (h : Slot fs path dirs name content?) (hopen : Open fs path dirs)
    (hplain : (Path.ofText path).ending = .plain) {content : ByteArray}
    (hallowed : fs.Allows path (some content)) :
    ∃ fs', fs.write path content = .ok fs' ∧ Slot fs' path dirs name (some content) ∧
      Open fs' path dirs := by
  have hlocate := h.locate hopen
  rw [hplain] at hlocate
  rw [Allows] at hallowed
  rw [FileSystem.write, openOrCreate_of_entry hlocate]
  cases hcontent : content? with
  | none =>
      subst hcontent
      obtain ⟨hslot, hopen'⟩ := h.created hopen hplain
      simp only [h.vacant rfl, hallowed]
      exact ⟨_, rfl, hslot.set _ _ nofun fun c hc => ⟨hplain, fs.nextId, by rw [Option.some.inj hc]⟩,
        Open.set hslot hopen' _⟩
  | some old =>
      obtain ⟨_, id, hnode⟩ := h.filled old hcontent
      simp only [hnode, hallowed]
      exact ⟨_, rfl, h.set _ _ nofun fun c hc => ⟨hplain, id, by rw [Option.some.inj hc]⟩,
        Open.set h hopen _⟩

theorem Slot.write_of_refused (h : Slot fs path dirs name content?) (hopen : Open fs path dirs)
    (hplain : (Path.ofText path).ending = .plain) {content : ByteArray} {r : Refusal}
    (hrefused : fs.refusal? (fs.placeOf path) (some content) = some r) :
    fs.write path content = .error r.error := by
  have hlocate := h.locate hopen
  rw [hplain] at hlocate
  rw [FileSystem.write, openOrCreate_of_entry hlocate]
  cases hcontent : content? with
  | none =>
      subst hcontent
      simp only [h.vacant rfl, hrefused]
  | some old =>
      obtain ⟨_, id, hnode⟩ := h.filled old hcontent
      simp only [hnode, hrefused]

/-- What is written into an open slot is in it afterwards, unless writing fails. -/
theorem Slot.write (h : Slot fs path dirs name content?) (hopen : Open fs path dirs)
    {content : ByteArray} (hwrite : fs.write path content = .ok fs') :
    Slot fs' path dirs name (some content) ∧ Open fs' path dirs := by
  by_cases hplain : (Path.ofText path).ending = .plain
  · cases hrefusal : fs.refusal? (fs.placeOf path) (some content) with
    | none =>
        obtain ⟨fs'', hwrite', hslot⟩ := h.exists_write hopen hplain hrefusal
        cases hwrite.symm.trans hwrite'
        exact hslot
    | some r => cases hwrite.symm.trans (h.write_of_refused hopen hplain hrefusal)
  · obtain ⟨e, herror⟩ := openOrCreate_of_not_plain (h.locate hopen) hplain
    rw [FileSystem.write, herror] at hwrite
    cases hwrite

/-- Writing that does not fail opens a file and gives it the content. -/
theorem exists_opened_of_write {content : ByteArray} (h : fs.write path content = .ok fs') :
    ∃ q id opened, fs.openOrCreate path = .ok (q, id, opened) ∧
      fs' = opened.set q (some (.file id content)) := by
  rw [FileSystem.write] at h
  split at h
  · cases h
  · rename_i q id opened hopen
    split at h
    · cases h
    · exact ⟨q, id, opened, hopen, (Except.ok.inj h).symm⟩

/-- Something other than a missing directory is in the way of names that cannot be followed. -/
def Settled (fs : FileSystem) (here names : List String) : Prop :=
  fs.follow here names = .ok (reach here names) ∨
    ∃ e, e ≠ .notFound ∧ fs.follow here names = .error e

/-- A path with a last name, if reading it does not fail but for want of a file. -/
theorem exists_name_of_read (hfault : textFault? path = none)
    (hread : ∀ e, fs.read path = .error e → e = .notFound)
    (hsettled : Settled fs (fs.start (.ofText path)) (Path.ofText path).parts.dropLast) :
    ∃ dirs name, (Path.ofText path).parts = dirs ++ [name] ∧ name ≠ upName ∧
      name.utf8ByteSize ≤ maxNameLength ∧ Open fs path dirs := by
  have hlocate : fs.locate path = fs.locatePath (.ofText path) := by
    rw [FileSystem.locate, hfault]
  rcases List.eq_nil_or_concat (Path.ofText path).parts with hparts | ⟨dirs, name, hparts⟩
  · have hdir : fs.read path = .error .isDirectory := by
      simp [FileSystem.read, look, hlocate, locatePath, hparts]
    cases hread _ hdir
  rw [List.concat_eq_append] at hparts
  rw [hparts, List.dropLast_concat] at hsettled
  rw [locatePath_concat fs hparts] at hlocate
  -- Anything else than an open route to a name makes reading fail for another reason.
  have hopen : Open fs path dirs := by
    rcases hsettled with hopen | ⟨e, hne, hfollow⟩
    · exact hopen
    · have herror : fs.read path = .error e := by
        rw [FileSystem.read, look, hlocate, hparts]
        by_cases hup : name = upName
        · rw [if_pos hup, hup, follow_concat_up, hfollow]
          rfl
        · rw [if_neg hup, hfollow]
      exact absurd (hread _ herror) hne
  have hnamed : name ≠ upName := by
    intro hup
    have hdir : fs.read path = .error .isDirectory := by
      rw [FileSystem.read, look, hlocate, if_pos hup, hparts, hup, follow_concat_up,
        show fs.follow _ dirs = _ from hopen]
      rfl
    cases hread _ hdir
  have hshort : name.utf8ByteSize ≤ maxNameLength := by
    by_cases hlong : name.utf8ByteSize > maxNameLength
    · have herror : fs.read path = .error .nameTooLong := by
        rw [FileSystem.read, look, hlocate, if_neg hnamed, show fs.follow _ dirs = _ from hopen]
        simp [hlong]
      cases hread _ herror
    · exact Nat.not_lt.mp hlong
  exact ⟨dirs, name, hparts, hnamed, hshort, hopen⟩

/-- A path that can be read, or that names nothing although all directories are there, has a
slot. -/
theorem exists_slot_of_read (hfault : textFault? path = none)
    (hread : ∀ e, fs.read path = .error e → e = .notFound)
    (hsettled : Settled fs (fs.start (.ofText path)) (Path.ofText path).parts.dropLast) :
    ∃ dirs name content?, Slot fs path dirs name content? ∧ Open fs path dirs := by
  obtain ⟨dirs, name, hparts, hnamed, hshort, hopen⟩ := exists_name_of_read hfault hread hsettled
  have hplace : fs.placeOf path = reach (fs.start (.ofText path)) dirs ++ [name] := by
    rw [placeOf, hparts, reach_concat _ _ hnamed]
  have hlocate : fs.locate path = .ok (.entry (fs.placeOf path) (Path.ofText path).ending) := by
    rw [FileSystem.locate, hfault]
    simp only [locatePath_concat fs hparts, if_neg hnamed, if_neg (Nat.not_lt.mpr hshort)]
    rw [show fs.follow _ dirs = _ from hopen, hplace]
  have hfile : fs.node? (fs.placeOf path) ≠ some .directory := by
    intro hnode
    have hdir : fs.read path = .error .isDirectory := by
      rw [FileSystem.read, look, hlocate]
      simp [hnode]
    cases hread _ hdir
  have haside : fs.placeOf path ∉ route (fs.start (.ofText path)) dirs :=
    fun hmem => hfile (directory_of_follow hopen hmem)
  have hpassable : Passable fs (fs.start (.ofText path)) dirs := passable_of_follow hopen
  cases hnode : fs.node? (fs.placeOf path) with
  | none =>
      exact ⟨dirs, name, none, ⟨hfault, hparts, hnamed, hshort, hpassable, haside,
        fun _ => hnode, fun _ he => absurd he (by simp)⟩, hopen⟩
  | some node =>
      cases node with
      | directory => exact absurd hnode hfile
      | file id content =>
          have hending : (Path.ofText path).ending = .plain := by
            by_cases hending : (Path.ofText path).ending = .plain
            · exact hending
            · have herror : fs.read path = .error .notDirectory := by
                rw [FileSystem.read, look, hlocate]
                simp [hnode, hending]
              cases hread _ herror
          refine ⟨dirs, name, some content, ⟨hfault, hparts, hnamed, hshort, hpassable, haside,
            fun he => absurd he (by simp), fun c hc => ⟨hending, id, ?_⟩⟩, hopen⟩
          rw [hnode, Option.some.inj hc]

/-- A slot that is there after its path was spared was there before. -/
theorem Slot.of_spares (h : Slot fs' path dirs name content?) (hspares : Spares path fs fs') :
    Slot fs path dirs name content? := by
  have hstart := start_eq_of_workDir hspares.workDir (.ofText path)
  have hplace := placeOf_eq_of_workDir hspares.workDir path
  have haside := h.aside
  have hvacant := h.vacant
  have hfilled := h.filled
  have hpassable := h.passable
  have hroute : ∀ q ∈ route (fs.start (.ofText path)) dirs, q ∈ fs.routeOf path := by
    intro q hq
    rw [routeOf, h.parts, route_append]
    exact List.mem_append_left _ hq
  rw [hplace, hstart] at haside
  rw [hplace, hspares.place] at hvacant hfilled
  rw [hstart] at hpassable
  exact ⟨h.fault, h.parts, h.named, h.short,
    hpassable.of_kept fun q hq => hspares.route q (hroute q hq), haside, hvacant, hfilled⟩

/-- A slot that is there once directories were made was there before. -/
theorem Slot.of_made {result : Except IoError Unit} (h : Slot fs' path dirs name content?)
    (hmade : Made fs fs' result (fs.start (.ofText path)) dirs) :
    Slot fs path dirs name content? := by
  have haside := h.aside
  rw [placeOf_eq_of_workDir hmade.workDir, start_eq_of_workDir hmade.workDir] at haside
  exact h.of_spares ⟨hmade.workDir, hmade.frame _ haside, fun q _ => hmade.kept q⟩

/-- A path that can be read, or that names nothing, once the directories above it are made, has a
slot with that content. -/
theorem exists_slot (hfault : textFault? path = none)
    (hread : ∀ e, (fs.makeParents path).2.read path = .error e → e = .notFound) :
    ∃ dirs name content?, Slot fs path dirs name content? ∧
      (fs.makeParents path).2.read path = readSlot content? := by
  have hmade := makeParents_spec fs hfault
  have hsettled : Settled (fs.makeParents path).2 (fs.start (.ofText path))
      (Path.ofText path).parts.dropLast := by
    cases hresult : (fs.makeParents path).1 with
    | ok u => exact .inl (hmade.reached hresult)
    | error e => exact .inr (hmade.blocked e hresult)
  rw [← start_eq_of_workDir hmade.workDir] at hsettled
  obtain ⟨dirs, name, content?, hslot, hopen⟩ := exists_slot_of_read hfault hread hsettled
  rw [hslot.parts, List.dropLast_concat] at hmade
  exact ⟨dirs, name, content?, hslot.of_made hmade, hslot.read hopen⟩

/-! ## Paths without steps upwards -/

/-- A path without steps upwards, of which no name is too long. -/
structure Plain (path : String) : Prop where
  down : upName ∉ (Path.ofText path).parts
  short : ∀ name ∈ (Path.ofText path).parts, name.utf8ByteSize ≤ maxNameLength

theorem follow_of_not_settled {here names : List String} (h : ¬ Settled fs here names) :
    fs.follow here names = .error .notFound := by
  cases hfollow : fs.follow here names with
  | ok there => exact absurd (.inl (eq_reach_of_follow hfollow ▸ hfollow)) h
  | error e =>
      by_cases he : e = .notFound
      · rw [he]
      · exact absurd (.inr ⟨e, he, hfollow⟩) h

/-- A plain path that ends beyond a missing directory has a vacant slot. -/
theorem Plain.vacant_slot (hplain : Plain path) (hrooted : fs.Rooted)
    (hfault : textFault? path = none) (hparts : (Path.ofText path).parts = dirs ++ [name])
    (hmissing : fs.follow (fs.start (.ofText path)) dirs = .error .notFound) :
    Slot fs path dirs name none := by
  have hdown := hplain.down
  have hshort := hplain.short
  rw [hparts] at hdown hshort
  have hup : upName ∉ dirs := fun h => hdown (List.mem_append_left _ h)
  have hnamed : name ≠ upName := fun h => hdown (h ▸ List.mem_append_right dirs List.mem_cons_self)
  have hplace : fs.placeOf path = fs.start (.ofText path) ++ dirs ++ [name] := by
    rw [placeOf, hparts, reach_concat _ _ hnamed, reach_of_not_mem hup]
  obtain ⟨hpassable, hvacant⟩ :=
    hrooted.passable hup (fun n hn => hshort n (List.mem_append_left _ hn)) hmissing
  refine ⟨hfault, hparts, hnamed, hshort name (List.mem_append_right dirs List.mem_cons_self),
    hpassable, fun hmem => ?_, fun _ => hplace ▸ hvacant [name], nofun⟩
  have hlength := (prefix_of_mem_route hup hmem).2.length_le
  rw [hplace, List.length_append, List.length_singleton] at hlength
  omega

/-- A plain path that can be read, or that names nothing, has a slot with that content. -/
theorem Plain.exists_slot (hplain : Plain path) (hrooted : fs.Rooted)
    (hfault : textFault? path = none) (hread : ∀ e, fs.read path = .error e → e = .notFound) :
    ∃ dirs name content?, Slot fs path dirs name content? ∧ fs.read path = readSlot content? := by
  by_cases hsettled : Settled fs (fs.start (.ofText path)) (Path.ofText path).parts.dropLast
  · obtain ⟨dirs, name, content?, hslot, hopen⟩ := exists_slot_of_read hfault hread hsettled
    exact ⟨dirs, name, content?, hslot, hslot.read hopen⟩
  · have hmissing := follow_of_not_settled hsettled
    rcases List.eq_nil_or_concat (Path.ofText path).parts with hparts | ⟨dirs, name, hparts⟩
    · rw [hparts] at hmissing
      cases hmissing
    · rw [List.concat_eq_append] at hparts
      rw [hparts, List.dropLast_concat] at hmissing
      have hslot := hplain.vacant_slot hrooted hfault hparts hmissing
      refine ⟨dirs, name, none, hslot, hslot.read_of_not_open fun hopen => ?_⟩
      rw [Open, hmissing] at hopen
      cases hopen

/-- What a plain path can be read as does not change when the directories above it are made. -/
theorem Plain.read_makeParents (hplain : Plain path) (hrooted : fs.Rooted)
    (hread : ∀ e, fs.read path = .error e → e = .notFound) :
    (fs.makeParents path).2.read path = fs.read path := by
  cases hfault : textFault? path with
  | some e =>
      have hall : ∀ files : FileSystem, files.read path = .error e := fun files => by
        rw [FileSystem.read, look, FileSystem.locate, hfault]
      rw [hall, hall]
  | none =>
      obtain ⟨dirs, name, content?, hslot, heq⟩ := hplain.exists_slot hrooted hfault hread
      obtain ⟨_, hspares, hopen⟩ := hslot.makeParents
      rw [heq, (hslot.spared hspares).read hopen]

end Slots

end NetPool.FileSystem
