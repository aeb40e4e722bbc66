import NetPool.Net.Subnet

/-! # Candidate walks

A search for a free subnet walks from its start in steps of the same prefix length. A short
address moves to the next range; a long one moves by `2 ^ 72`, which bumps the part that names
a site and leaves the subnet id and the interface id alone. -/

namespace NetPool

/-- The distance between two long candidates. -/
def siteStride : Nat := 0x1000000000000000000

namespace Subnet

/-- The number of the next candidate's address, which may lie past the end of the family. -/
def nextValue : {f : Family} → Subnet f → Nat
  | .v4, s => s.base + s.size
  | .v6, s => s.address.value + siteStride

/-- The next candidate, or `none` past the end of the address space. -/
def next? {f : Family} (s : Subnet f) : Option (Subnet f) :=
  (Address.ofNat? s.nextValue).map fun a => ⟨a, s.length, s.length_le⟩

/-- The candidate after `k` steps, or `none` if the walk ends before. -/
def walk? {f : Family} (s : Subnet f) : Nat → Option (Subnet f)
  | 0 => some s
  | k + 1 => (s.walk? k).bind next?

end Subnet

def AnySubnet.next? (s : AnySubnet) : Option AnySubnet := s.subnet.next?.map AnySubnet.of

def AnySubnet.walk? (s : AnySubnet) (k : Nat) : Option AnySubnet :=
  (s.subnet.walk? k).map AnySubnet.of

end NetPool
