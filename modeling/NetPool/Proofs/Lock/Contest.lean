import Mathlib.Data.List.Pairwise
import NetPool.Proofs.Lock.Stage

/-! # Contests for locks

Calls for locks act in any order, on any paths, while anybody makes, renames and removes files. No
two of them ever have guards on one file, and a guard on a file that was removed is of no use to
anybody who did not have it before. -/

namespace NetPool.Lock

open FileSystem

/-- Calls for locks, and the world that they act on. -/
structure Contest (ι : Type) where
  stages : ι → Stage
  world : World

namespace Contest

variable {ι : Type} [DecidableEq ι]

/-- What can happen in a contest. Besides the moves of the calls, anything outside may change the
files. -/
inductive Op (ι : Type) where
  | move (i : ι) (m : Move)
  | outside (f : FileSystem → FileSystem)

/-- Nobody outside brings back a file that is gone, or makes one with the number of another. -/
def Op.Keeps : Op ι → Prop
  | .move .. => True
  | .outside f => ∀ files, Later files (f files)

/-- The contest in which no call has begun. -/
def idle (w : World) : Contest ι := ⟨fun _ => .idle, w⟩

/-- The contest with another stage of one call, in another world. -/
def put (c : Contest ι) (i : ι) (stage : Stage) (w : World) : Contest ι :=
  ⟨fun j => if j = i then stage else c.stages j, w⟩

/-- The contest after something has happened. -/
def step (c : Contest ι) : Op ι → Contest ι
  | .move i m => c.put i (m.next (c.stages i) c.world).1 (m.next (c.stages i) c.world).2
  | .outside f => ⟨c.stages, c.world.withFiles (f c.world.files)⟩

/-- The contest after several things have happened in order. -/
def run (c : Contest ι) (ops : List (Op ι)) : Contest ι := ops.foldl step c

variable {c : Contest ι}

theorem stages_put_self (c : Contest ι) (i : ι) (stage : Stage) (w : World) :
    (c.put i stage w).stages i = stage := if_pos rfl

theorem stages_put_other (c : Contest ι) {i j : ι} (h : j ≠ i) (stage : Stage) (w : World) :
    (c.put i stage w).stages j = c.stages j := if_neg h

/-! ## What always holds -/

/-- The guards are different ones, on different files. -/
def Differ (g g' : Guard) : Prop := g.id ≠ g'.id ∧ g.file ≠ g'.file

instance : Std.Symm Differ := ⟨fun _ _ h => ⟨h.1.symm, h.2.symm⟩⟩

/-- A new guard differs from those there are if all of these have smaller numbers. -/
theorem differ_of_granted {w w' : World} {g : Guard} (hgranted : Granted w g w')
    (hdistinct : w.guards.Pairwise Differ) (hbelow : ∀ g' ∈ w.guards, g'.id < w.nextGuard) :
    w'.guards.Pairwise Differ ∧ ∀ g' ∈ w'.guards, g'.id < w'.nextGuard := by
  rw [hgranted.guards, hgranted.nextGuard]
  refine ⟨.cons (fun g' hg' => ⟨?_, fun hfile => ?_⟩) hdistinct, fun g' hg' => ?_⟩
  · rw [hgranted.id]
    exact Nat.ne_of_gt (hbelow g' hg')
  · have hheld : w.isHeld g.file = true :=
      List.any_eq_true.mpr ⟨g', hg', decide_eq_true hfile.symm⟩
    rw [hgranted.free] at hheld
    cases hheld
  · rcases List.mem_cons.mp hg' with rfl | hg'
    · rw [hgranted.id]
      exact Nat.lt_succ_self _
    · exact Nat.lt_succ_of_lt (hbelow g' hg')

/-- Any two guards differ, no two calls have the same one, and no call waits on a file that is yet to
be made. -/
structure Sound (c : Contest ι) : Prop where
  numbered : c.world.files.Numbered
  distinct : c.world.guards.Pairwise Differ
  below : ∀ g ∈ c.world.guards, g.id < c.world.nextGuard
  live : ∀ i g, (c.stages i).guard? = some g → g ∈ c.world.guards
  owner : ∀ i j g, (c.stages i).guard? = some g → (c.stages j).guard? = some g → i = j
  known : ∀ i file, (c.stages i).file? = some file → file < c.world.files.nextId

omit [DecidableEq ι] in
theorem sound_idle {w : World} (hguards : w.guards = []) (hnumbered : w.files.Numbered) :
    Sound (idle w : Contest ι) where
  numbered := hnumbered
  distinct := hguards ▸ .nil
  below g hg := by
    rw [idle, hguards] at hg
    cases hg
  live := nofun
  owner := nofun
  known := nofun

omit [DecidableEq ι] in
theorem Sound.differ (h : Sound c) {g g' : Guard} (hg : g ∈ c.world.guards)
    (hg' : g' ∈ c.world.guards) (hne : g ≠ g') : Differ g g' :=
  h.distinct.forall hg hg' hne

theorem Sound.known_put (h : Sound c) {i : ι} {stage : Stage} {w : World}
    (hle : c.world.files.nextId ≤ w.files.nextId)
    (hfile : ∀ file, stage.file? = some file → file < w.files.nextId) {j : ι} {file : FileId}
    (hknown : ((c.put i stage w).stages j).file? = some file) : file < w.files.nextId := by
  by_cases hj : j = i
  · rw [hj, stages_put_self] at hknown
    exact hfile file hknown
  · rw [stages_put_other c hj] at hknown
    exact Nat.lt_of_lt_of_le (h.known j file hknown) hle

theorem Sound.known_put_none (h : Sound c) {i : ι} {stage : Stage} {w : World}
    (hle : c.world.files.nextId ≤ w.files.nextId) (hstage : stage.file? = none) (j : ι)
    (file : FileId) : ((c.put i stage w).stages j).file? = some file → file < w.files.nextId := by
  refine h.known_put hle fun file hfile => ?_
  rw [hstage] at hfile
  cases hfile

/-- A call without a guard takes part in nothing that is said of guards. -/
theorem guard?_put_none {i : ι} {stage : Stage} {w : World} (hstage : stage.guard? = none) {j : ι}
    {g : Guard} (hg : ((c.put i stage w).stages j).guard? = some g) :
    j ≠ i ∧ (c.stages j).guard? = some g := by
  by_cases hj : j = i
  · rw [hj, stages_put_self, hstage] at hg
    cases hg
  · rw [stages_put_other c hj] at hg
    exact ⟨hj, hg⟩

theorem guard?_put_some {i : ι} {stage : Stage} {w : World} {g : Guard}
    (hstage : stage.guard? = some g) {j : ι} {g' : Guard}
    (hg : ((c.put i stage w).stages j).guard? = some g') :
    (j = i ∧ g' = g) ∨ (c.stages j).guard? = some g' := by
  by_cases hj : j = i
  · rw [hj, stages_put_self, hstage] at hg
    exact .inl ⟨hj, (Option.some.inj hg).symm⟩
  · rw [stages_put_other c hj] at hg
    exact .inr hg

theorem Sound.waits (h : Sound c) {i : ι} {stage : Stage} {w : World} (hafter : stage.guard? = none)
    (hpasses : Passes c.world w)
    (hfile : ∀ file, stage.file? = some file →
      (c.stages i).file? = some file ∨ w.files.Linked file) : Sound (c.put i stage w) := by
  have hnumbered := hpasses.files.numbered h.numbered
  refine ⟨hnumbered, ?_, ?_, ?_, ?_, ?_⟩
  · rw [put, hpasses.guards]
    exact h.distinct
  · rw [put, hpasses.guards, hpasses.nextGuard]
    exact h.below
  · intro j g hg
    rw [put, hpasses.guards]
    exact h.live j g (guard?_put_none hafter hg).2
  · intro j k g hj hk
    exact h.owner j k g (guard?_put_none hafter hj).2 (guard?_put_none hafter hk).2
  · intro j file
    refine h.known_put hpasses.files.nextId fun file hstage => ?_
    rcases hfile file hstage with hbefore | hlinked
    · exact Nat.lt_of_lt_of_le (h.known i file hbefore) hpasses.files.nextId
    · exact hnumbered file hlinked

theorem Sound.takes (h : Sound c) {i : ι} {stage : Stage} {g : Guard} {w : World}
    (hafter : stage.guard? = some g) (hgranted : Granted c.world g w) :
    Sound (c.put i stage w) := by
  obtain ⟨hdistinct, hbelow⟩ := differ_of_granted hgranted h.distinct h.below
  -- The number of the new guard is above all others, so nobody can have had that guard.
  have hothers : ∀ j, (c.stages j).guard? ≠ some g := by
    intro j hj
    have hlt := h.below g (h.live j g hj)
    rw [hgranted.id] at hlt
    exact Nat.lt_irrefl _ hlt
  refine ⟨hgranted.files.numbered h.numbered, hdistinct, hbelow, ?_, ?_, ?_⟩
  · intro j g' hj
    rw [put, hgranted.guards]
    rcases guard?_put_some hafter hj with ⟨_, rfl⟩ | hj
    · exact List.mem_cons_self
    · exact List.mem_cons_of_mem g (h.live j g' hj)
  · intro j k g' hj hk
    rcases guard?_put_some hafter hj with ⟨hji, rfl⟩ | hj
    · rcases guard?_put_some hafter hk with ⟨hki, _⟩ | hk
      · rw [hji, hki]
      · exact absurd hk (hothers k)
    · rcases guard?_put_some hafter hk with ⟨_, rfl⟩ | hk
      · exact absurd hj (hothers j)
      · exact h.owner j k g' hj hk
  · exact h.known_put_none hgranted.files.nextId (Stage.file?_of_guard? hafter)

theorem Sound.keeps (h : Sound c) {i : ι} {stage : Stage} {g : Guard}
    (hbefore : (c.stages i).guard? = some g) (hafter : stage.guard? = some g) :
    Sound (c.put i stage c.world) := by
  have hsame : ∀ j, ((c.put i stage c.world).stages j).guard? = (c.stages j).guard? := by
    intro j
    by_cases hj : j = i
    · rw [hj, stages_put_self, hafter, hbefore]
    · rw [stages_put_other c hj]
  refine ⟨h.numbered, h.distinct, h.below, ?_, ?_, ?_⟩
  · intro j g' hj
    rw [hsame] at hj
    exact h.live j g' hj
  · intro j k g' hj hk
    rw [hsame] at hj hk
    exact h.owner j k g' hj hk
  · exact h.known_put_none (Nat.le_refl _) (Stage.file?_of_guard? hafter)

theorem Sound.releases (h : Sound c) {i : ι} {stage : Stage} {g : Guard}
    (hbefore : (c.stages i).guard? = some g) (hafter : stage.guard? = none)
    (hfile : stage.file? = none) : Sound (c.put i stage (c.world.release g)) := by
  refine ⟨h.numbered, h.distinct.sublist List.filter_sublist, ?_, ?_, ?_, ?_⟩
  · intro g' hg'
    exact h.below g' (List.mem_filter.mp hg').1
  · intro j g' hg'
    obtain ⟨hji, hj⟩ := guard?_put_none hafter hg'
    have hne : g' ≠ g := by
      rintro rfl
      exact hji (h.owner j i g' hj hbefore)
    have hid := (h.differ (h.live j g' hj) (h.live i g hbefore) hne).1
    exact List.mem_filter.mpr ⟨h.live j g' hj, decide_eq_true hid⟩
  · intro j k g' hj hk
    exact h.owner j k g' (guard?_put_none hafter hj).2 (guard?_put_none hafter hk).2
  · exact h.known_put_none (Nat.le_refl _) hfile

omit [DecidableEq ι] in
theorem Sound.outside (h : Sound c) {files : FileSystem} (hlater : Later c.world.files files) :
    Sound ⟨c.stages, c.world.withFiles files⟩ :=
  ⟨hlater.numbered h.numbered, h.distinct, h.below, h.live, h.owner,
    fun i file hknown => Nat.lt_of_lt_of_le (h.known i file hknown) hlater.nextId⟩

theorem Sound.step (h : Sound c) {op : Op ι} (hkeeps : op.Keeps) : Sound (c.step op) := by
  cases op with
  | outside f => exact h.outside (hkeeps _)
  | move i m =>
      have hmoves := next_moves m (c.stages i) c.world
      rw [Contest.step]
      generalize (m.next (c.stages i) c.world).1 = stage at hmoves
      generalize (m.next (c.stages i) c.world).2 = w at hmoves
      cases hmoves with
      | waits _ hafter hpasses hfile => exact h.waits hafter hpasses hfile
      | takes _ hafter hgranted _ => exact h.takes hafter hgranted
      | keeps hbefore hafter _ => exact h.keeps hbefore hafter
      | releases hbefore hafter hfile => exact h.releases hbefore hafter hfile

theorem Sound.run (h : Sound c) {ops : List (Op ι)} (hkeeps : ∀ op ∈ ops, op.Keeps) :
    Sound (c.run ops) := by
  induction ops generalizing c with
  | nil => exact h
  | cons op ops ih =>
      exact ih (h.step (hkeeps op List.mem_cons_self))
        fun op' hop' => hkeeps op' (List.mem_cons_of_mem op hop')

/-! ## Who holds a lock -/

/-- A lock that is held from a step on is held on the file that its path names then. -/
theorem named_of_step {op : Op ι} {i : ι} {path : String} {g : Guard}
    (h : (c.step op).stages i = .holding path g) :
    c.stages i = .holding path g ∨ (c.step op).world.files.fileId path = .ok g.file := by
  cases op with
  | outside f => exact .inl h
  | move j m =>
      have hmoves := next_moves m (c.stages j) c.world
      rw [Contest.step] at h ⊢
      by_cases hij : i = j
      · subst hij
        rw [stages_put_self] at h
        rw [h] at hmoves
        rw [put]
        generalize (m.next (c.stages i) c.world).2 = w at hmoves
        cases hmoves with
        | waits _ hafter _ _ => cases hafter
        | releases _ hafter _ => cases hafter
        | takes _ hafter _ hnamed =>
            obtain rfl := Option.some.inj hafter
            exact .inr (hnamed path rfl)
        | keeps _ hafter hnamed =>
            obtain rfl := Option.some.inj hafter
            exact hnamed path rfl
      · rw [stages_put_other c hij] at h
        exact .inl h

theorem later_step {op : Op ι} (hkeeps : op.Keeps) :
    Later c.world.files (c.step op).world.files := by
  cases op with
  | outside f => exact hkeeps _
  | move i m =>
      have hmoves := next_moves m (c.stages i) c.world
      rw [Contest.step, put]
      generalize (m.next (c.stages i) c.world).2 = w at hmoves
      cases hmoves with
      | waits _ _ hpasses _ => exact hpasses.files
      | takes _ _ hgranted _ => exact hgranted.files
      | keeps _ _ _ => exact .refl _
      | releases _ _ _ => exact .refl _

/-- While a path names one file, all locks of the path are held on that file. -/
theorem file_of_run {path : String} {file : FileId} {ops : List (Op ι)}
    (hnamed : ∀ k ≤ ops.length, (c.run (ops.take k)).world.files.fileId path = .ok file)
    (hbefore : ∀ i g, c.stages i = .holding path g → g.file = file) {i : ι} {g : Guard}
    (h : (c.run ops).stages i = .holding path g) : g.file = file := by
  -- Each step is the past of those after it: what is held then is held on `file`.
  induction ops generalizing c with
  | nil => exact hbefore i g h
  | cons op ops ih =>
      refine ih (c := c.step op) (fun k hk => hnamed (k + 1) (Nat.succ_le_succ hk)) ?_ h
      intro j g' hg'
      rcases named_of_step hg' with hold | hnew
      · exact hbefore j g' hold
      · have hsame : (c.step op).world.files.fileId path = .ok file :=
          hnamed 1 (Nat.succ_le_succ (Nat.zero_le _))
        rw [hsame] at hnew
        exact (Except.ok.inj hnew).symm

/-- Nobody comes to hold a lock on a file that is gone. -/
theorem held_of_run {file : FileId} {ops : List (Op ι)} (hkeeps : ∀ op ∈ ops, op.Keeps)
    (hlt : file < c.world.files.nextId) (hgone : ¬ c.world.files.Linked file) {i : ι} {path : String}
    {g : Guard} (h : (c.run ops).stages i = .holding path g) (hfile : g.file = file) :
    c.stages i = .holding path g := by
  induction ops generalizing c with
  | nil => exact h
  | cons op ops ih =>
      -- The file is gone after the step, too, so the step cannot have granted it.
      have hlater := later_step (c := c) (hkeeps op List.mem_cons_self)
      have hgone' := hlater.not_linked hlt hgone
      have hheld := ih (c := c.step op) (fun op' hop' => hkeeps op' (List.mem_cons_of_mem op hop'))
        (Nat.lt_of_lt_of_le hlt hlater.nextId) hgone' h
      rcases named_of_step hheld with hold | hnew
      · exact hold
      · rw [hfile] at hnew
        exact absurd (linked_of_fileId hnew) hgone'

/-- However calls for locks on any paths act, and whatever is done to the files meanwhile: no two
calls hold one file. Whoever comes to hold a lock holds the file that the path names. So while a path
names one file, one call at most holds the lock of the path. And if the file that a call waits on is
gone, neither that call nor any other comes to hold it, whoever lets go of it. A call that nobody
interrupts does in three steps what an attempt does. -/
theorem exclusive_and_fresh {w : World} (hguards : w.guards = []) (hnumbered : w.files.Numbered)
    (past future : List (Op ι)) (hpast : ∀ op ∈ past, op.Keeps)
    (hfuture : ∀ op ∈ future, op.Keeps) :
    let c := (idle w).run past
    (∀ i j path path' g g', c.stages i = .holding path g → c.stages j = .holding path' g' →
        g.file = g'.file → i = j) ∧
      (∀ op i path g, (c.step op).stages i = .holding path g → c.stages i = .holding path g ∨
        (c.step op).world.files.fileId path = .ok g.file) ∧
      (∀ path file, (∀ i g, c.stages i = .holding path g → g.file = file) →
        (∀ k ≤ future.length, (c.run (future.take k)).world.files.fileId path = .ok file) →
        ∀ i j g g', (c.run future).stages i = .holding path g →
          (c.run future).stages j = .holding path g' → i = j) ∧
      (∀ i path breaks file, c.stages i = .waiting path breaks file → ¬ c.world.files.Linked file →
        ∀ j path' g, (c.run future).stages j = .holding path' g → g.file = file →
          c.stages j = .holding path' g) ∧
      ∀ path breaks, (Stage.opening path breaks).advanceThrice.outcome c.world =
        (Stage.opening path breaks).attempt.outcome c.world := by
  intro c
  have hsound : Sound c := (sound_idle hguards hnumbered).run hpast
  -- Guards on one file are equal, and each guard belongs to one call.
  have hexclusive : ∀ {c : Contest ι}, Sound c → ∀ {i j path path' g g'},
      c.stages i = .holding path g → c.stages j = .holding path' g' → g.file = g'.file → i = j := by
    intro c hsound i j path path' g g' hi hj hfile
    have hgi : (c.stages i).guard? = some g := by rw [hi]; rfl
    have hgj : (c.stages j).guard? = some g' := by rw [hj]; rfl
    by_cases hg : g = g'
    · exact hsound.owner i j g hgi (hg ▸ hgj)
    · exact absurd hfile (hsound.differ (hsound.live i g hgi) (hsound.live j g' hgj) hg).2
  refine ⟨fun i j path path' g g' => hexclusive hsound, fun op i path g => named_of_step, ?_, ?_,
    fun path breaks => outcome_advance_opening path breaks c.world⟩
  · intro path file hbefore hnamed i j g g' hi hj
    refine hexclusive (hsound.run hfuture) hi hj ?_
    rw [file_of_run hnamed hbefore hi, file_of_run hnamed hbefore hj]
  · intro i path breaks file hwaits hgone j path' g hheld hfile
    have hlt : file < c.world.files.nextId := hsound.known i file (by rw [hwaits]; rfl)
    exact held_of_run hfuture hlt hgone hheld hfile

/-- A file system without the file of a path. -/
def unlinked (path : String) (files : FileSystem) : FileSystem :=
  match files.removeIfPresent path with
  | .ok files => files
  | .error _ => files

theorem later_unlinked (path : String) (files : FileSystem) : Later files (unlinked path files) := by
  rw [unlinked]
  split
  · rename_i hremove
    exact later_removeIfPresent hremove
  · exact .refl files

/-- The second call waits on a file that is removed. The third call takes the lock on a new file, and
the first one lets go of the old one. -/
def parked : List (Op (Fin 3)) :=
  [.move 0 (.acquire "l" 0), .move 1 (.call "l" false), .move 1 .advance, .outside (unlinked "l"),
    .move 2 (.acquire "l" 0), .move 0 .drop]

/-- The second call gets the old file, leaves it, and takes the lock on the new file as soon as that
is free. -/
def resumed : List (Op (Fin 3)) :=
  [.move 1 .advance, .move 1 .advance, .move 1 .advance, .move 1 .attempt, .move 2 .drop,
    .move 1 .attempt]

theorem exclusive_and_fresh_parked :
    let c := (idle (Session.quiet (.empty [])) : Contest (Fin 3)).run parked
    c.stages 1 = .waiting "l" false 0 ∧ ¬ c.world.files.Linked 0 ∧
      (c.run resumed).stages 1 = .holding "l" ⟨3, 1⟩ ∧
      (∀ i j g g', (c.run resumed).stages i = .holding "l" g →
        (c.run resumed).stages j = .holding "l" g' → i = j) ∧
      ∀ j path g, (c.run resumed).stages j = .holding path g → g.file = 0 →
        c.stages j = .holding path g := by
  intro c
  have hkeeps : ∀ op ∈ parked ++ resumed, op.Keeps := by
    intro op hop
    cases op with
    | move i m => trivial
    | outside f =>
        obtain rfl : f = unlinked "l" := by simpa [parked, resumed] using hop
        exact later_unlinked "l"
  have hwaits : c.stages 1 = .waiting "l" false 0 := rfl
  have hfiles : ∀ q, c.world.files.node? q = if q = ["l"] then some (.file 1 .empty)
      else if q = ["l"] then none else if q = ["l"] then some (.file 0 .empty)
      else (empty []).node? q := fun _ => rfl
  have hgone : ¬ c.world.files.Linked 0 := by
    intro ⟨q, content, hnode⟩
    rw [hfiles] at hnode
    by_cases hq : q = ["l"]
    · rw [if_pos hq] at hnode
      cases hnode
    · rw [if_neg hq, if_neg hq, if_neg hq] at hnode
      exact absurd (numbered_empty [] 0 ⟨q, content, hnode⟩) (Nat.not_lt_zero 0)
  obtain ⟨_, _, hone, hparked, _⟩ := exclusive_and_fresh (w := Session.quiet (.empty [])) rfl
    (numbered_empty []) parked resumed (fun op hop => hkeeps op (List.mem_append_left _ hop))
    fun op hop => hkeeps op (List.mem_append_right _ hop)
  refine ⟨hwaits, hgone, rfl, hone "l" 1 ?_ ?_, hparked 1 "l" false 0 hwaits hgone⟩
  · intro i g hi
    match i with
    | 0 => cases hi
    | 1 => cases hi
    | 2 => cases hi; rfl
  · intro k hk
    match k with
    | 0 | 1 | 2 | 3 | 4 | 5 | 6 => rfl
    | k + 7 => exact absurd hk (by simp [resumed])

end Contest

end NetPool.Lock
