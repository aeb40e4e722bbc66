import NetPool.Proofs.Files.Path

/-! # Routes

A path is followed name by name, and only the places that it enters by a name matter for where it
leads. Making the directories above a path changes missing places of its route only, and afterwards
the path leads to its place unless something on the route is in the way. -/

namespace NetPool

namespace Path

/-- The place that a name leads to. -/
def move (here : List String) (name : String) : List String :=
  if name = upName then here.dropLast else here ++ [name]

/-- The place that names lead to. -/
def reach (here : List String) (names : List String) : List String := names.foldl move here

/-- The places that are entered by name on the way. -/
def route : List String → List String → List (List String)
  | _, [] => []
  | here, name :: names =>
    if name = upName then route here.dropLast names
    else (here ++ [name]) :: route (here ++ [name]) names

theorem reach_cons (here : List String) (name : String) (names : List String) :
    reach here (name :: names) = reach (move here name) names := rfl

theorem reach_append (here names more : List String) :
    reach here (names ++ more) = reach (reach here names) more := List.foldl_append

theorem reach_concat (here names : List String) {name : String} (h : name ≠ upName) :
    reach here (names ++ [name]) = reach here names ++ [name] := by
  simp [reach, move, h]

theorem route_up (here names : List String) :
    route here (upName :: names) = route here.dropLast names := by
  simp [route]

theorem route_cons {name : String} (h : name ≠ upName) (here names : List String) :
    route here (name :: names) = (here ++ [name]) :: route (here ++ [name]) names := by
  simp [route, h]

theorem route_append (here names more : List String) :
    route here (names ++ more) = route here names ++ route (reach here names) more := by
  induction names generalizing here with
  | nil => rfl
  | cons name names ih =>
      by_cases h : name = upName
      · rw [h, List.cons_append, route_up, route_up, ih, reach_cons, move, if_pos rfl]
      · rw [List.cons_append, route_cons h, route_cons h, ih, reach_cons, move, if_neg h]
        rfl

theorem route_concat (here names : List String) {name : String} (h : name ≠ upName) :
    route here (names ++ [name]) = route here names ++ [reach here names ++ [name]] := by
  rw [route_append, route_cons h]
  rfl

/-! ## Without steps upwards -/

theorem reach_of_not_mem {names : List String} (hup : upName ∉ names) (here : List String) :
    reach here names = here ++ names := by
  induction names generalizing here with
  | nil => rw [List.append_nil]; rfl
  | cons name names ih =>
      have hname : name ≠ upName := fun h => hup (h ▸ List.mem_cons_self)
      have hrest : upName ∉ names := fun h => hup (List.mem_cons_of_mem name h)
      rw [reach_cons, move, if_neg hname, ih hrest, List.append_assoc, List.singleton_append]

/-- A route leads through places between its start and its end. -/
theorem prefix_of_mem_route {here names q : List String} (hup : upName ∉ names)
    (hq : q ∈ route here names) : here <+: q ∧ q <+: here ++ names := by
  induction names generalizing here with
  | nil => exact absurd hq List.not_mem_nil
  | cons name names ih =>
      have hname : name ≠ upName := fun h => hup (h ▸ List.mem_cons_self)
      have hrest : upName ∉ names := fun h => hup (List.mem_cons_of_mem name h)
      rw [route_cons hname] at hq
      rw [← List.singleton_append, ← List.append_assoc]
      rcases List.mem_cons.mp hq with rfl | hq
      · exact ⟨List.prefix_append here [name], List.prefix_append _ names⟩
      · obtain ⟨hstart, hend⟩ := ih hrest hq
        exact ⟨(List.prefix_append here [name]).trans hstart, hend⟩

theorem prefix_reach_of_mem_route {here names q : List String} (hup : upName ∉ names)
    (hq : q ∈ route here names) : q <+: reach here names := by
  rw [reach_of_not_mem hup]
  exact (prefix_of_mem_route hup hq).2

end Path

namespace FileSystem

open NetPool.Path

variable {fs fs' : FileSystem} {here names : List String}

/-! ## Following names -/

theorem follow_up (fs : FileSystem) (here names : List String) :
    fs.follow here (upName :: names) = fs.follow here.dropLast names := by
  simp [follow]

theorem follow_append (fs : FileSystem) (here names more : List String) :
    fs.follow here (names ++ more) =
      (fs.follow here names).bind fun there => fs.follow there more := by
  induction names generalizing here with
  | nil => rfl
  | cons name names ih =>
      rw [List.cons_append, follow, follow]
      split
      · exact ih here.dropLast
      · split
        · rfl
        · split
          · rfl
          · rfl
          · exact ih (here ++ [name])

theorem eq_reach_of_follow {there : List String} (h : fs.follow here names = .ok there) :
    there = reach here names := by
  induction names generalizing here with
  | nil => exact (Except.ok.inj h).symm
  | cons name names ih =>
      rw [follow] at h
      rw [reach_cons, move]
      split at h
      · rename_i hup
        rw [if_pos hup]
        exact ih h
      · rename_i hup
        rw [if_neg hup]
        split at h
        · cases h
        · split at h
          · cases h
          · cases h
          · exact ih h

/-- Every name on the way is short enough, and no file is in the way. What is missing can be
made. -/
structure Passable (fs : FileSystem) (here names : List String) : Prop where
  short : ∀ name ∈ names, name ≠ upName → name.utf8ByteSize ≤ maxNameLength
  free : ∀ q ∈ route here names, ∀ id content, fs.node? q ≠ some (.file id content)

theorem Passable.tail {name : String} (h : Passable fs here (name :: names)) :
    Passable fs (move here name) names := by
  refine ⟨fun n hn => h.short n (List.mem_cons_of_mem name hn), fun q hq => h.free q ?_⟩
  rw [move] at hq
  split at hq
  · rename_i hup
    rwa [hup, route_up]
  · rename_i hup
    rw [route_cons hup]
    exact List.mem_cons_of_mem _ hq

/-- Where nothing is in the way, a path leads to its place or something is missing. -/
theorem Passable.follow (h : Passable fs here names) :
    fs.follow here names = .ok (reach here names) ∨ fs.follow here names = .error .notFound := by
  induction names generalizing here with
  | nil => exact .inl rfl
  | cons name names ih =>
      have htail := ih h.tail
      by_cases hup : name = upName
      · rw [FileSystem.follow, if_pos hup, reach_cons]
        rw [move, if_pos hup] at htail ⊢
        exact htail
      · have hshort := h.short name List.mem_cons_self hup
        have hfree := h.free (here ++ [name]) (by rw [route_cons hup]; exact List.mem_cons_self)
        rw [FileSystem.follow, if_neg hup, if_neg (by omega), reach_cons]
        rw [move, if_neg hup] at htail ⊢
        cases hnode : fs.node? (here ++ [name]) with
        | none => exact .inr rfl
        | some node =>
            cases node with
            | directory => exact htail
            | file id content => exact absurd hnode (hfree id content)

/-- A path that can be followed enters directories only. -/
theorem directory_of_follow {q : List String} (h : fs.follow here names = .ok (reach here names))
    (hq : q ∈ route here names) : fs.node? q = some .directory := by
  induction names generalizing here with
  | nil => exact absurd hq List.not_mem_nil
  | cons name names ih =>
      by_cases hup : name = upName
      · rw [follow, if_pos hup, reach_cons, move, if_pos hup] at h
        rw [hup, route_up] at hq
        exact ih h hq
      · rw [follow, if_neg hup, reach_cons, move, if_neg hup] at h
        rw [route_cons hup] at hq
        split at h
        · cases h
        · split at h
          · cases h
          · cases h
          · rename_i hnode
            rcases List.mem_cons.mp hq with rfl | hq
            · exact hnode
            · exact ih h hq

theorem short_of_follow {name : String} (h : fs.follow here names = .ok (reach here names))
    (hname : name ∈ names) (hup : name ≠ upName) : name.utf8ByteSize ≤ maxNameLength := by
  induction names generalizing here with
  | nil => exact absurd hname List.not_mem_nil
  | cons first names ih =>
      by_cases hfirst : first = upName
      · rw [follow, if_pos hfirst, reach_cons, move, if_pos hfirst] at h
        rcases List.mem_cons.mp hname with rfl | hname
        · exact absurd hfirst hup
        · exact ih h hname
      · rw [follow, if_neg hfirst, reach_cons, move, if_neg hfirst] at h
        split at h
        · cases h
        · rename_i hshort
          split at h
          · cases h
          · cases h
          · rcases List.mem_cons.mp hname with rfl | hname
            · omega
            · exact ih h hname

/-- Short names that enter directories only can be followed. -/
theorem follow_of_directories
    (hshort : ∀ {name}, name ∈ names → name ≠ upName → name.utf8ByteSize ≤ maxNameLength)
    (hdir : ∀ q ∈ route here names, fs.node? q = some .directory) :
    fs.follow here names = .ok (reach here names) := by
  induction names generalizing here with
  | nil => rfl
  | cons name names ih =>
      have hrest : ∀ {n}, n ∈ names → n ≠ upName → n.utf8ByteSize ≤ maxNameLength :=
        fun hn => hshort (List.mem_cons_of_mem name hn)
      by_cases hup : name = upName
      · rw [follow, if_pos hup, reach_cons, move, if_pos hup]
        exact ih hrest fun q hq => hdir q (by rwa [hup, route_up])
      · have hnode := hdir (here ++ [name]) (by rw [route_cons hup]; exact List.mem_cons_self)
        have hname := hshort List.mem_cons_self hup
        rw [follow, if_neg hup, if_neg (by omega), hnode, reach_cons, move, if_neg hup]
        exact ih hrest fun q hq => hdir q (by rw [route_cons hup]; exact List.mem_cons_of_mem _ hq)

theorem passable_of_follow (h : fs.follow here names = .ok (reach here names)) :
    Passable fs here names := by
  refine ⟨fun name hname hup => short_of_follow h hname hup, fun q hq id content hnode => ?_⟩
  rw [directory_of_follow h hq] at hnode
  cases hnode

/-! ## Trees -/

/-- Nothing is below a place where nothing is. -/
def Rooted (fs : FileSystem) : Prop :=
  ∀ q more, fs.node? q = none → fs.node? (q ++ more) = none

theorem rooted_empty (workDir : List String) : (empty workDir).Rooted := by
  intro q more h
  have hprefix : ¬ q <+: workDir := by simpa [empty] using h
  simpa [empty] using fun hmore => hprefix ((List.prefix_append q more).trans hmore)

/-- Beyond the first missing place there is nothing. -/
theorem Rooted.passable (hrooted : fs.Rooted) (hup : upName ∉ names)
    (hshort : ∀ name ∈ names, name.utf8ByteSize ≤ maxNameLength)
    (hmissing : fs.follow here names = .error .notFound) :
    Passable fs here names ∧ ∀ more, fs.node? (here ++ names ++ more) = none := by
  induction names generalizing here with
  | nil => cases hmissing
  | cons name names ih =>
      have hname : name ≠ upName := fun h => hup (h ▸ List.mem_cons_self)
      have hrest : upName ∉ names := fun h => hup (List.mem_cons_of_mem name h)
      have hlong : ¬ name.utf8ByteSize > maxNameLength :=
        Nat.not_lt.mpr (hshort name List.mem_cons_self)
      have hsplit : here ++ name :: names = here ++ [name] ++ names := by simp
      rw [follow, if_neg hname, if_neg hlong] at hmissing
      cases hnode : fs.node? (here ++ [name]) with
      | none =>
          -- The first place that is missing. All later places of the route are beyond it.
          refine ⟨⟨fun n hn _ => hshort n hn, fun q hq id content hfile => ?_⟩, fun more => ?_⟩
          · have hprefix : here ++ [name] <+: q := by
              rw [route_cons hname] at hq
              rcases List.mem_cons.mp hq with rfl | hq
              · exact List.prefix_rfl
              · exact (prefix_of_mem_route hrest hq).1
            obtain ⟨more, rfl⟩ := hprefix
            rw [hrooted _ more hnode] at hfile
            cases hfile
          · rw [hsplit, List.append_assoc]
            exact hrooted _ _ hnode
      | some node =>
          rw [hnode] at hmissing
          cases node with
          | file id content => cases hmissing
          | directory =>
              obtain ⟨hpassable, hvacant⟩ :=
                ih hrest (fun n hn => hshort n (List.mem_cons_of_mem name hn)) hmissing
              refine ⟨⟨fun n hn _ => hshort n hn, fun q hq id content hfile => ?_⟩, fun more => ?_⟩
              · rw [route_cons hname] at hq
                rcases List.mem_cons.mp hq with rfl | hq
                · rw [hnode] at hfile
                  cases hfile
                · exact hpassable.free q hq id content hfile
              · rw [hsplit]
                exact hvacant more

/-! ## Growth -/

/-- The place is as it was, or a directory was made there. -/
def Kept (fs fs' : FileSystem) (q : List String) : Prop :=
  fs'.node? q = fs.node? q ∨ (fs.node? q = none ∧ fs'.node? q = some .directory)

theorem Kept.refl (fs : FileSystem) (q : List String) : Kept fs fs q := .inl rfl

theorem Kept.trans {fs'' : FileSystem} {q : List String} (h : Kept fs fs' q)
    (h' : Kept fs' fs'' q) : Kept fs fs'' q := by
  rcases h with h | ⟨hnone, hdir⟩
  · rcases h' with h' | ⟨hnone', hdir'⟩
    · exact .inl (h'.trans h)
    · exact .inr ⟨h ▸ hnone', hdir'⟩
  · rcases h' with h' | ⟨hnone', _⟩
    · exact .inr ⟨hnone, h'.trans hdir⟩
    · rw [hdir] at hnone'
      cases hnone'

theorem Kept.file {q : List String} {id : FileId} {content : ByteArray} (h : Kept fs fs' q) :
    fs'.node? q = some (.file id content) ↔ fs.node? q = some (.file id content) := by
  rcases h with h | ⟨hnone, hdir⟩
  · rw [h]
  · simp [hnone, hdir]

theorem Passable.kept (h : Passable fs here names) (hkept : ∀ q ∈ route here names, Kept fs fs' q) :
    Passable fs' here names :=
  ⟨h.short, fun q hq id content hnode => h.free q hq id content ((hkept q hq).file.mp hnode)⟩

theorem Passable.of_kept (h : Passable fs' here names)
    (hkept : ∀ q ∈ route here names, Kept fs fs' q) : Passable fs here names :=
  ⟨h.short, fun q hq id content hnode => h.free q hq id content ((hkept q hq).file.mpr hnode)⟩

theorem follow_kept (h : fs.follow here names = .ok (reach here names))
    (hkept : ∀ q ∈ route here names, Kept fs fs' q) :
    fs'.follow here names = .ok (reach here names) := by
  refine follow_of_directories (fun hname hup => short_of_follow h hname hup) fun q hq => ?_
  rcases hkept q hq with heq | ⟨hnone, _⟩
  · rw [heq, directory_of_follow h hq]
  · rw [directory_of_follow h hq] at hnone
    cases hnone

/-! ## Making directories -/

/-- What making the directories that `names` enter has come to: only missing places among them were
made directories, and afterwards the names can be followed unless something is in the way. -/
structure Made (fs fs' : FileSystem) (result : Except IoError Unit) (here names : List String) :
    Prop where
  workDir : fs'.workDir = fs.workDir
  kept : ∀ q, Kept fs fs' q
  frame : ∀ q, q ∉ route here names → fs'.node? q = fs.node? q
  reached : result = .ok () → fs'.follow here names = .ok (reach here names)
  blocked : ∀ e, result = .error e → ∃ e', e' ≠ .notFound ∧ fs'.follow here names = .error e'

/-- Where nothing is in the way, all directories are made. -/
theorem Made.ok {result : Except IoError Unit} (h : Made fs fs' result here names)
    (hpass : Passable fs here names) : result = .ok () := by
  cases hresult : result with
  | ok u => rfl
  | error e =>
      obtain ⟨e', hne, hfollow⟩ := h.blocked e hresult
      have hpass' : Passable fs' here names := hpass.kept fun q _ => h.kept q
      rcases hpass'.follow with hok | hmissing
      · rw [hok] at hfollow
        cases hfollow
      · rw [hmissing] at hfollow
        exact absurd (Except.error.inj hfollow).symm hne

theorem locatePath_concat (fs : FileSystem) {p : Path} {name : String}
    (hparts : p.parts = names ++ [name]) :
    fs.locatePath p =
      if name = upName then (fs.follow (fs.start p) p.parts).map .directory
      else
        match fs.follow (fs.start p) names with
        | .error e => .error e
        | .ok here =>
          if name.utf8ByteSize > maxNameLength then .error .nameTooLong
          else .ok (.entry (here ++ [name]) p.ending) := by
  have hlast : p.parts.getLast? = some name := by rw [hparts, List.getLast?_concat]
  have hinit : p.parts.dropLast = names := by rw [hparts, List.dropLast_concat]
  cases hfollow : fs.follow (fs.start p) names with
  | error e => simp [locatePath, hlast, hinit, hfollow]
  | ok here => simp [locatePath, hlast, hinit, hfollow]

/-- Following one more name upwards fails only where the names before it do. -/
theorem follow_concat_up (fs : FileSystem) (here names : List String) :
    fs.follow here (names ++ [upName]) = (fs.follow here names).map List.dropLast := by
  rw [follow_append]
  cases fs.follow here names with
  | error e => rfl
  | ok there => exact follow_up fs there []

theorem follow_concat {name : String} {there : List String} (hup : name ≠ upName)
    (hfollow : fs.follow here names = .ok there) :
    fs.follow here (names ++ [name]) =
      if name.utf8ByteSize > maxNameLength then .error .nameTooLong
      else
        match fs.node? (there ++ [name]) with
        | none => .error .notFound
        | some (.file ..) => .error .notDirectory
        | some .directory => .ok (there ++ [name]) := by
  rw [follow_append, hfollow, Except.bind, follow, if_neg hup]
  rfl

theorem node?_set (fs : FileSystem) (place : List String) (node : Option Node) (q : List String) :
    (fs.set place node).node? q = if q = place then node else fs.node? q := rfl

/-- What making one directory has come to. That something is missing is said only of the names
before its own. -/
structure MadeOne (fs fs' : FileSystem) (result : Except IoError Unit) (here names : List String)
    (name : String) : Prop where
  workDir : fs'.workDir = fs.workDir
  kept : ∀ q, Kept fs fs' q
  frame : ∀ q, q ∉ route here (names ++ [name]) → fs'.node? q = fs.node? q
  reached : result = .ok () → fs'.follow here (names ++ [name]) = .ok (reach here (names ++ [name]))
  missing : result = .error .notFound → fs.follow here names = .error .notFound
  blocked : ∀ e, result = .error e → e ≠ .notFound →
    ∃ e', e' ≠ .notFound ∧ fs'.follow here (names ++ [name]) = .error e'

theorem MadeOne.unchanged {result : Except IoError Unit} {name : String}
    (reached : result = .ok () →
      fs.follow here (names ++ [name]) = .ok (reach here (names ++ [name])))
    (missing : result = .error .notFound → fs.follow here names = .error .notFound)
    (blocked : ∀ e, result = .error e → e ≠ .notFound →
      ∃ e', e' ≠ .notFound ∧ fs.follow here (names ++ [name]) = .error e') :
    MadeOne fs fs result here names name :=
  ⟨rfl, fun q => .refl fs q, fun _ _ => rfl, reached, missing, blocked⟩

theorem ensureDirectory_up (fs : FileSystem) {p : Path} (hparts : p.parts = names ++ [upName]) :
    MadeOne fs (fs.ensureDirectory p).2 (fs.ensureDirectory p).1 (fs.start p) names upName := by
  have hlocate := fs.locatePath_concat hparts
  rw [if_pos rfl, hparts, follow_concat_up] at hlocate
  cases hfollow : fs.follow (fs.start p) names with
  | error e =>
      rw [hfollow] at hlocate
      have hensure : fs.ensureDirectory p = (.error e, fs) := by
        simp only [ensureDirectory, makeDirectory, isDirectory, hlocate, Except.map]
        simp
      rw [hensure]
      refine .unchanged (fun h => by cases h) (fun h => ?_) fun e' h hne => ⟨e', hne, ?_⟩
      · rw [hfollow, Except.error.inj h]
      · rw [follow_concat_up, hfollow, ← Except.error.inj h]
        rfl
  | ok there =>
      rw [hfollow] at hlocate
      have hensure : fs.ensureDirectory p = (.ok (), fs) := by
        simp only [ensureDirectory, makeDirectory, isDirectory, hlocate, Except.map]
        simp
      rw [hensure]
      refine .unchanged (fun _ => ?_) (fun h => by cases h) fun e h => by cases h
      rw [follow_concat_up, hfollow, reach_append, eq_reach_of_follow hfollow]
      rfl

theorem kept_set {place : List String} (hnone : fs.node? place = none) (q : List String) :
    Kept fs (fs.set place (some .directory)) q := by
  by_cases hq : q = place
  · exact .inr ⟨hq ▸ hnone, by rw [node?_set, if_pos hq]⟩
  · exact .inl (by rw [node?_set, if_neg hq])

/-- The last directory is made where the others are. -/
theorem madeOne_set {name : String} (hup : name ≠ upName)
    (hshort : name.utf8ByteSize ≤ maxNameLength)
    (hfollow : fs.follow here names = .ok (reach here names))
    (hnone : fs.node? (reach here names ++ [name]) = none) :
    MadeOne fs (fs.set (reach here names ++ [name]) (some .directory)) (.ok ()) here names name where
  workDir := rfl
  kept := kept_set hnone
  frame q hq := by
    rw [route_concat _ _ hup] at hq
    rw [node?_set, if_neg]
    rintro rfl
    exact hq (List.mem_append_right _ List.mem_cons_self)
  reached _ := by
    have hfollow' := follow_kept hfollow fun q _ => kept_set hnone q
    rw [follow_concat hup hfollow', if_neg (by omega), node?_set, if_pos rfl, reach_concat _ _ hup]
  missing h := by cases h
  blocked _ h := by cases h

theorem ensureDirectory_of_error {p : Path} {e : IoError} (hlocate : fs.locatePath p = .error e) :
    fs.ensureDirectory p = (.error e, fs) := by
  simp only [ensureDirectory, makeDirectory, isDirectory, hlocate]
  simp

theorem ensureDirectory_of_entry {p : Path} {q : List String}
    (hlocate : fs.locatePath p = .ok (.entry q .plain)) :
    fs.ensureDirectory p =
      match fs.node? q with
      | none => (.ok (), fs.set q (some .directory))
      | some (.file ..) => (.error .alreadyExists, fs)
      | some .directory => (.ok (), fs) := by
  cases hnode : fs.node? q with
  | none => simp [ensureDirectory, makeDirectory, hlocate, hnode]
  | some node =>
      cases node with
      | file id content =>
          simp [ensureDirectory, makeDirectory, isDirectory, hlocate, hnode, Node.isDirectory]
      | directory =>
          simp [ensureDirectory, makeDirectory, isDirectory, hlocate, hnode, Node.isDirectory]

theorem ensureDirectory_spec (fs : FileSystem) {p : Path} {name : String}
    (hparts : p.parts = names ++ [name]) (hending : p.ending = .plain) :
    MadeOne fs (fs.ensureDirectory p).2 (fs.ensureDirectory p).1 (fs.start p) names name := by
  by_cases hup : name = upName
  · subst hup
    exact ensureDirectory_up fs hparts
  have hlocate := fs.locatePath_concat hparts
  rw [if_neg hup] at hlocate
  cases hfollow : fs.follow (fs.start p) names with
  | error e =>
      simp only [hfollow] at hlocate
      rw [ensureDirectory_of_error hlocate]
      refine .unchanged (fun h => by cases h) (fun h => ?_) fun e' h hne => ⟨e', hne, ?_⟩
      · rw [hfollow, Except.error.inj h]
      · rw [follow_append, hfollow, ← Except.error.inj h]
        rfl
  | ok there =>
      obtain rfl := eq_reach_of_follow hfollow
      have hnext := follow_concat hup hfollow
      simp only [hfollow] at hlocate
      by_cases hlong : name.utf8ByteSize > maxNameLength
      · rw [if_pos hlong] at hlocate hnext
        rw [ensureDirectory_of_error hlocate]
        exact .unchanged (fun h => by cases h) (fun h => by cases h)
          fun _ _ _ => ⟨.nameTooLong, by decide, hnext⟩
      · rw [if_neg hlong, hending] at hlocate
        rw [if_neg hlong] at hnext
        rw [ensureDirectory_of_entry hlocate]
        cases hnode : fs.node? (reach (fs.start p) names ++ [name]) with
        | none => exact madeOne_set hup (by omega) hfollow hnode
        | some node =>
            rw [hnode] at hnext
            cases node with
            | file id content =>
                exact .unchanged (fun h => by cases h) (fun h => by cases h)
                  fun _ _ _ => ⟨.notDirectory, by decide, hnext⟩
            | directory =>
                refine .unchanged (fun _ => ?_) (fun h => by cases h) fun e h => by cases h
                rw [hnext, reach_concat _ _ hup]

theorem MadeOne.made {result : Except IoError Unit} {name : String}
    (h : MadeOne fs fs' result here names name) (hresult : result ≠ .error .notFound) :
    Made fs fs' result here (names ++ [name]) :=
  ⟨h.workDir, h.kept, h.frame, h.reached, fun e he => h.blocked e he fun hne => hresult (hne ▸ he)⟩

/-- A directory is made after those above it, on which it depends that nothing is missing. -/
theorem Made.concat {fs'' : FileSystem} {result : Except IoError Unit} {name : String}
    (hfirst : Made fs fs' (.ok ()) here names) (hlast : MadeOne fs' fs'' result here names name) :
    Made fs fs'' result here (names ++ [name]) where
  workDir := hlast.workDir.trans hfirst.workDir
  kept q := (hfirst.kept q).trans (hlast.kept q)
  frame q hq := by
    have hq' : q ∉ route here names := by
      intro hmem
      rw [route_append] at hq
      exact hq (List.mem_append_left _ hmem)
    rw [hlast.frame q hq, hfirst.frame q hq']
  reached := hlast.reached
  blocked e he := by
    refine hlast.blocked e he fun hne => ?_
    have hmissing := hlast.missing (hne ▸ he)
    rw [hfirst.reached rfl] at hmissing
    cases hmissing

/-- What is in the way above is in the way of one more name. -/
theorem Made.concat_blocked {e : IoError} (h : Made fs fs' (.error e) here names) (name : String) :
    Made fs fs' (.error e) here (names ++ [name]) where
  workDir := h.workDir
  kept := h.kept
  frame q hq := h.frame q fun hmem => hq (by rw [route_append]; exact List.mem_append_left _ hmem)
  reached he := by cases he
  blocked e' he := by
    obtain ⟨e', hne, hfollow⟩ := h.blocked e' he
    exact ⟨e', hne, by rw [follow_append, hfollow]; rfl⟩

theorem start_eq_of_workDir (h : fs'.workDir = fs.workDir) (p : Path) :
    fs'.start p = fs.start p := by
  rw [start, start, h]

theorem ensureNames_spec (fs : FileSystem) (absolute : Bool) (above : List String) :
    Made fs (fs.ensureNames absolute .plain above).2 (fs.ensureNames absolute .plain above).1
      (fs.start ⟨absolute, above.reverse, .plain⟩) above.reverse := by
  induction above generalizing fs with
  | nil => exact ⟨rfl, fun q => .refl fs q, fun _ _ => rfl, fun _ => rfl, fun e h => by cases h⟩
  | cons name above ih =>
      have hparts : (⟨absolute, (name :: above).reverse, .plain⟩ : Path).parts =
          above.reverse ++ [name] := by simp
      have hone := ensureDirectory_spec fs hparts rfl
      have hall := ih fs
      simp only [ensureNames]
      split
      · split
        · rename_i heq
          rw [heq] at hall
          rw [List.reverse_cons]
          exact hall.concat_blocked name
        · rename_i fs₁ heq
          -- The directory is tried again, now that those above it are there.
          rw [heq] at hall
          have hlast := ensureDirectory_spec fs₁ hparts rfl
          rw [start_eq_of_workDir hall.workDir] at hlast
          rw [List.reverse_cons] at hlast ⊢
          exact hall.concat hlast
      · rename_i hne
        rw [List.reverse_cons] at hone hne ⊢
        exact hone.made fun he => hne _ (Prod.ext he rfl)

/-- Making the directories above a path makes those of its route. -/
theorem makeParents_spec (fs : FileSystem) {path : String} (hfault : textFault? path = none) :
    Made fs (fs.makeParents path).2 (fs.makeParents path).1 (fs.start (.ofText path))
      (Path.ofText path).parts.dropLast := by
  have hmade := ensureNames_spec fs (Path.ofText path).absolute
    (Path.ofText path).parts.dropLast.reverse
  rw [List.reverse_reverse, ← makeParents_eq fs path hfault] at hmade
  exact hmade

/-- Whatever the text, only missing places of the route change. -/
theorem makeParents_kept (fs : FileSystem) (path : String) :
    (fs.makeParents path).2.workDir = fs.workDir ∧ (∀ q, Kept fs (fs.makeParents path).2 q) ∧
      ∀ q, q ∉ route (fs.start (.ofText path)) (Path.ofText path).parts.dropLast →
        (fs.makeParents path).2.node? q = fs.node? q := by
  rcases makeParents_cases fs path with hsame | hmake
  · rw [hsame]
    exact ⟨rfl, fun q => .refl fs q, fun _ _ => rfl⟩
  · have hmade := ensureNames_spec fs (Path.ofText path).absolute
      (Path.ofText path).parts.dropLast.reverse
    rw [List.reverse_reverse, ← hmake] at hmade
    exact ⟨hmade.workDir, hmade.kept, hmade.frame⟩

/-! ## What making directories does not touch -/

/-- The file systems differ in what is in their places only. -/
def DiffersInNodes (fs fs' : FileSystem) : Prop := ∃ node?, fs' = { fs with node? := node? }

theorem DiffersInNodes.refl (fs : FileSystem) : DiffersInNodes fs fs := ⟨fs.node?, rfl⟩

theorem DiffersInNodes.trans {fs'' : FileSystem} (h : DiffersInNodes fs fs')
    (h' : DiffersInNodes fs' fs'') : DiffersInNodes fs fs'' := by
  obtain ⟨_, rfl⟩ := h
  obtain ⟨node?, rfl⟩ := h'
  exact ⟨node?, rfl⟩

theorem differsInNodes_ensureDirectory (fs : FileSystem) (p : Path) :
    DiffersInNodes fs (fs.ensureDirectory p).2 := by
  rw [ensureDirectory]
  split
  · rename_i hmake
    rw [makeDirectory] at hmake
    split at hmake
    · cases hmake
    · cases hmake
    · split at hmake
      · cases hmake
      · cases hmake
        exact ⟨_, rfl⟩
      · cases hmake
      · cases hmake
  · exact .refl fs

theorem differsInNodes_ensureNames (fs : FileSystem) (absolute : Bool) (ending : PathEnding)
    (names : List String) : DiffersInNodes fs (fs.ensureNames absolute ending names).2 := by
  induction names generalizing fs ending with
  | nil => exact .refl fs
  | cons name above ih =>
      have habove := ih fs .plain
      rw [ensureNames]
      split
      · split
        · rename_i heq
          rwa [heq] at habove
        · rename_i heq
          rw [heq] at habove
          exact habove.trans (differsInNodes_ensureDirectory _ _)
      · exact differsInNodes_ensureDirectory fs _

theorem differsInNodes_makeParents (fs : FileSystem) (path : String) :
    DiffersInNodes fs (fs.makeParents path).2 := by
  rcases makeParents_cases fs path with hsame | hmake
  · rw [hsame]
    exact .refl fs
  · rw [hmake]
    exact differsInNodes_ensureNames _ _ _ _

theorem nextId_makeParents (fs : FileSystem) (path : String) :
    (fs.makeParents path).2.nextId = fs.nextId := by
  obtain ⟨_, heq⟩ := differsInNodes_makeParents fs path
  rw [heq]

theorem refusal?_makeParents (fs : FileSystem) (path : String) :
    (fs.makeParents path).2.refusal? = fs.refusal? := by
  obtain ⟨_, heq⟩ := differsInNodes_makeParents fs path
  rw [heq]

end FileSystem

end NetPool
