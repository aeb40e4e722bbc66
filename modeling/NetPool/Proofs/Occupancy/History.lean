import NetPool.Proofs.Occupancy

/-! # Histories of insertions

However an occupancy was built up, it refuses what meets something that was inserted, and nothing
else. -/

namespace NetPool

/-- Insertions one after the other, from nothing on. An occupancy that extends another has a history
of its own. -/
inductive History where
  | start
  | network (h : History) (s : AnySubnet)
  | address (h : History) (a : AnyAddress)
  | name (h : History) (n : String)
  | asset (h : History) (e : Asset)
  | extend (h other : History)

namespace History

/-- What the insertions lead to. -/
def occupancy : History → Occupancy
  | start => .empty
  | network h s => h.occupancy.addNetwork s
  | address h a => h.occupancy.addAddress a
  | name h n => h.occupancy.addName n
  | asset h e => h.occupancy.addAsset e
  | extend h other => h.occupancy.union other.occupancy

/-- All that was inserted at any depth, as it was given. An asset counts for its four subnets and its
two bridges. -/
def uses : History → Uses
  | start => .nothing
  | network h s => h.uses.append (.ofRanges [s])
  | address h a => h.uses.append (.ofAddresses [a])
  | name h n => h.uses.append (.ofNames [n])
  | asset h e => h.uses.append (.ofAssets [e])
  | extend h other => h.uses.append other.uses

/-- Each insertion adds what it says, so that an occupancy holds all that was inserted. -/
theorem holds (h : History) : h.occupancy.Holds h.uses := by
  induction h with
  | start => exact Occupancy.holds_empty
  | network h s ih => exact ih.addNetwork s
  | address h a ih => exact ih.addAddress a
  | name h n ih => exact ih.addName n
  | asset h e ih => exact ih.addAsset e
  | extend h other ih ih' => exact ih.union ih'

/-- After any history, a candidate conflicts exactly if an address that it contains was inserted or
lies in an inserted subnet, of its own family as the types say and whatever the host bits. A name is
in use exactly if it was inserted, by itself or as a bridge of an asset. -/
theorem conflicts_iff_inserted (h : History) :
    (∀ (f : Family) (c : Subnet f), h.occupancy.conflicts (.of c) = true ↔
        (∃ s : Subnet f, .of s ∈ h.uses.ranges ∧ ∃ a : Address f, s.Contains a ∧ c.Contains a) ∨
          ∃ a : Address f, ⟨f, a⟩ ∈ h.uses.addresses ∧ c.Contains a) ∧
      ∀ n, h.occupancy.hasName n = true ↔ n ∈ h.uses.names := by
  refine ⟨?_, fun n => h.holds.hasName_iff⟩
  intro f c
  rw [h.holds.conflicts_iff_meets]
  constructor
  · rintro (⟨r, hr, hshares⟩ | ⟨a, ha, hcovers⟩)
    · obtain ⟨s, rfl, hcommon⟩ := AnySubnet.shares_of_iff_exists.mp hshares
      exact .inl ⟨s, hr, hcommon⟩
    · obtain ⟨b, rfl, hb⟩ := AnySubnet.covers_of_iff.mp hcovers
      exact .inr ⟨b, ha, hb⟩
  · rintro (⟨s, hs, hcommon⟩ | ⟨a, ha, hcontains⟩)
    · exact .inl ⟨.of s, hs, AnySubnet.shares_of_iff_exists.mpr ⟨s, rfl, hcommon⟩⟩
    · exact .inr ⟨⟨f, a⟩, ha, AnySubnet.covers_of_iff.mpr ⟨a, rfl, hcontains⟩⟩

end History

end NetPool
