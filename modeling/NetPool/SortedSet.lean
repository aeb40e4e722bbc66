/-! # Sorted sets

A finite set is the strictly increasing list of its members, so two sets with the same
members are equal (`SortedSet.ext`). -/

namespace NetPool

/-- A finite set over a linear order, held as the strictly increasing list of its members. -/
structure SortedSet (α : Type) [LT α] where
  toList : List α
  increasing : toList.Pairwise (· < ·)
  deriving DecidableEq

namespace SortedSet

variable {α : Type} [LT α]

def empty : SortedSet α := ⟨[], .nil⟩

def size (s : SortedSet α) : Nat := s.toList.length

def isEmpty (s : SortedSet α) : Bool := s.toList.isEmpty

instance : Membership α (SortedSet α) := ⟨fun s x => x ∈ s.toList⟩

@[simp] theorem not_mem_empty {x : α} : ¬ x ∈ (empty : SortedSet α) := List.not_mem_nil

variable [DecidableLT α]

/-- Puts `x` at its place in an increasing list, unless it is there already. -/
def place (x : α) : List α → List α
  | [] => [x]
  | y :: ys => if x < y then x :: y :: ys else if y < x then y :: place x ys else y :: ys

/-- Looks for `x` in an increasing list, and no further than its place. -/
def find (x : α) : List α → Bool
  | [] => false
  | y :: ys => if y < x then find x ys else !decide (x < y)

def contains (s : SortedSet α) (x : α) : Bool := find x s.toList

variable [LE α] [Std.IsLinearOrder α] [Std.LawfulOrderLT α]

omit [DecidableLT α] in
theorem eq_of_not_lt {x y : α} (h₁ : ¬ x < y) (h₂ : ¬ y < x) : x = y :=
  Std.le_antisymm (Std.not_lt.1 h₂) (Std.not_lt.1 h₁)

theorem mem_place {x z : α} {ys : List α} : z ∈ place x ys ↔ z = x ∨ z ∈ ys := by
  induction ys with
  | nil => simp [place]
  | cons y ys ih =>
    rw [place]
    split
    · simp
    · split
      · simp [ih, or_left_comm]
      · rename_i h₁ h₂
        simp [eq_of_not_lt h₁ h₂]

theorem place_increasing {x : α} {ys : List α} (h : ys.Pairwise (· < ·)) :
    (place x ys).Pairwise (· < ·) := by
  induction ys with
  | nil => simp [place]
  | cons y ys ih =>
    obtain ⟨hy, hys⟩ := List.pairwise_cons.1 h
    rw [place]
    split
    · rename_i hxy
      refine List.pairwise_cons.2 ⟨fun z hz => ?_, h⟩
      rcases List.mem_cons.1 hz with rfl | hz
      · exact hxy
      · exact Std.lt_trans hxy (hy z hz)
    · split
      · rename_i hyx
        refine List.pairwise_cons.2 ⟨fun z hz => ?_, ih hys⟩
        rcases mem_place.1 hz with rfl | hz
        · exact hyx
        · exact hy z hz
      · exact h

def insert (s : SortedSet α) (x : α) : SortedSet α :=
  ⟨place x s.toList, place_increasing s.increasing⟩

def union (s t : SortedSet α) : SortedSet α := t.toList.foldl insert s

@[simp] theorem mem_insert {s : SortedSet α} {x z : α} : z ∈ s.insert x ↔ z = x ∨ z ∈ s := mem_place

theorem mem_foldl_insert {s : SortedSet α} {xs : List α} {z : α} :
    z ∈ xs.foldl insert s ↔ z ∈ s ∨ z ∈ xs := by
  induction xs generalizing s with
  | nil => simp
  | cons x xs ih => simp [ih, or_assoc, or_left_comm]

@[simp] theorem mem_union {s t : SortedSet α} {z : α} : z ∈ s.union t ↔ z ∈ s ∨ z ∈ t :=
  mem_foldl_insert

theorem find_eq_true_iff {x : α} {ys : List α} (h : ys.Pairwise (· < ·)) :
    find x ys = true ↔ x ∈ ys := by
  induction ys with
  | nil => simp [find]
  | cons y ys ih =>
    obtain ⟨hy, hys⟩ := List.pairwise_cons.1 h
    rw [find]
    split
    · rename_i hyx
      rw [ih hys, List.mem_cons]
      refine ⟨.inr, fun hx => hx.resolve_left fun he => ?_⟩
      exact Std.lt_irrefl (he ▸ hyx)
    · rename_i hyx
      simp only [Bool.not_eq_true', decide_eq_false_iff_not, List.mem_cons]
      refine ⟨fun hxy => .inl (eq_of_not_lt hxy hyx), fun hx hxy => ?_⟩
      rcases hx with rfl | hx
      · exact Std.lt_irrefl hxy
      · exact hyx (hy x hx)

@[simp] theorem contains_iff {s : SortedSet α} {x : α} : s.contains x = true ↔ x ∈ s :=
  find_eq_true_iff s.increasing

omit [DecidableLT α] in
theorem eq_of_mem_iff {xs ys : List α} (hx : xs.Pairwise (· < ·)) (hy : ys.Pairwise (· < ·))
    (h : ∀ z, z ∈ xs ↔ z ∈ ys) : xs = ys := by
  induction xs generalizing ys with
  | nil =>
    cases ys with
    | nil => rfl
    | cons y ys => simpa using h y
  | cons x xs ih =>
    cases ys with
    | nil => simpa using h x
    | cons y ys =>
      obtain ⟨hxs, hxt⟩ := List.pairwise_cons.1 hx
      obtain ⟨hys, hyt⟩ := List.pairwise_cons.1 hy
      have hxy : x = y := by
        rcases List.mem_cons.1 ((h x).1 List.mem_cons_self) with he | hm
        · exact he
        · rcases List.mem_cons.1 ((h y).2 List.mem_cons_self) with he | hm'
          · exact he.symm
          · exact absurd (Std.lt_trans (hys x hm) (hxs y hm')) Std.lt_irrefl
      subst hxy
      refine congrArg (x :: ·) (ih hxt hyt fun z => ?_)
      refine ⟨fun hz => ?_, fun hz => ?_⟩
      · rcases List.mem_cons.1 ((h z).1 (List.mem_cons_of_mem _ hz)) with rfl | hz'
        · exact absurd (hxs z hz) Std.lt_irrefl
        · exact hz'
      · rcases List.mem_cons.1 ((h z).2 (List.mem_cons_of_mem _ hz)) with rfl | hz'
        · exact absurd (hys z hz) Std.lt_irrefl
        · exact hz'

omit [DecidableLT α] in
/-- Two sets with the same members are equal. -/
theorem ext {s t : SortedSet α} (h : ∀ z, z ∈ s ↔ z ∈ t) : s = t := by
  obtain ⟨xs, hx⟩ := s
  obtain ⟨ys, hy⟩ := t
  obtain rfl : xs = ys := eq_of_mem_iff hx hy h
  rfl

end SortedSet
end NetPool
