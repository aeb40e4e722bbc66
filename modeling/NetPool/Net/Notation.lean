import NetPool.Net.Subnet
import NetPool.Text.Numeral

/-! # Written addresses and subnets

The usual notation: four decimal octets for short addresses; for long ones, groups of
hexadecimal digits with at most one gap `::`, where two last groups may be written as four
octets. A subnet adds a slash and its prefix length. -/

namespace NetPool.Notation

/-- What a reader tolerates: octets with leading zeros, and a gap that stands for no group. -/
structure Tolerance where
  paddedOctets : Bool
  idleGap : Bool

def faultMessage : String := "invalid IP address syntax"

def subnetTolerance : Tolerance := ⟨true, true⟩

/-- How a bare address is read. -/
def addressTolerance : Tolerance := ⟨false, false⟩

/-- Drops the character `c`, which must come first. -/
def expect (c : Char) : List Char → Option (List Char)
  | [] => none
  | d :: cs => if d = c then some cs else none

def readOctet (t : Tolerance) (cs : List Char) : Option (Nat × List Char) :=
  match cs with
  | '0' :: d :: _ =>
    if Numeral.isDigit 10 d && !t.paddedOctets then none else Numeral.read 10 3 256 cs
  | _ => Numeral.read 10 3 256 cs

/-- Reads four octets with points between them, as the number of the short address. -/
def readQuad (t : Tolerance) (cs : List Char) : Option (Nat × List Char) := do
  let (a, cs) ← readOctet t cs
  let (b, cs) ← readOctet t (← expect '.' cs)
  let (c, cs) ← readOctet t (← expect '.' cs)
  let (d, cs) ← readOctet t (← expect '.' cs)
  some (((a * 256 + b) * 256 + c) * 256 + d, cs)

/-- A run of groups: their values, whether it ended in four octets, and the text after it. -/
structure Groups where
  values : List Nat
  endsInQuad : Bool
  rest : List Char

/-- Reads as many groups as it can, up to a bound, with colons between them. `isStart` says that
no group was read yet, so that no colon is due. -/
def readGroups (t : Tolerance) : Nat → Bool → List Char → Groups
  | 0, _, cs => ⟨[], false, cs⟩
  | k + 1, isStart, cs =>
    match if isStart then some cs else expect ':' cs with
    | none => ⟨[], false, cs⟩
    | some body =>
      -- Four octets take the place of two groups.
      match if k = 0 then none else readQuad t body with
      | some (q, rest) => ⟨[q / 65536, q % 65536], true, rest⟩
      | none =>
        match Numeral.read 16 4 65536 body with
        | none => ⟨[], false, cs⟩
        | some (g, rest) =>
          let more := readGroups t k false rest
          ⟨g :: more.values, more.endsInQuad, more.rest⟩

/-- The number that a list of sixteen-bit groups writes. -/
def ofGroups (gs : List Nat) : Nat := gs.foldl (fun n g => n * 65536 + g) 0

/-- Reads the eight groups of a long address, a gap standing for the missing ones. -/
def readLong (t : Tolerance) (cs : List Char) : Option (Nat × List Char) :=
  let front := readGroups t 8 true cs
  if front.values.length = 8 then some (ofGroups front.values, front.rest)
  else if front.endsInQuad then none
  else do
    let cs ← expect ':' (← expect ':' front.rest)
    -- A gap that has to stand for some group leaves less room for those after it.
    let room := 8 - front.values.length - if t.idleGap then 0 else 1
    let back := readGroups t room true cs
    let gap := List.replicate (8 - front.values.length - back.values.length) 0
    some (ofGroups (front.values ++ gap ++ back.values), back.rest)

/-- Reads the number of an address of the family. -/
def readValue (t : Tolerance) : Family → List Char → Option (Nat × List Char)
  | .v4 => readQuad t
  | .v6 => readLong t

/-- The greatest number of digits of a prefix length. -/
def lengthPlaces : Family → Nat
  | .v4 => 2
  | .v6 => 3

def address? (f : Family) (cs : List Char) : Option (Address f) := do
  let (n, rest) ← readValue addressTolerance f cs
  if rest.isEmpty then Address.ofNat? n else none

def subnet? (f : Family) (cs : List Char) : Option (Subnet f) := do
  let (n, rest) ← readValue subnetTolerance f cs
  let (len, rest) ← Numeral.read 10 (lengthPlaces f) (f.width + 1) (← expect '/' rest)
  if rest.isEmpty then
    let a ← Address.ofNat? n
    if h : len ≤ f.width then some ⟨a, len, h⟩ else none
  else none

def octets (n : Nat) : List Nat :=
  [n / 0x1000000 % 256, n / 0x10000 % 256, n / 0x100 % 256, n % 256]

def groups (n : Nat) : List Nat := (List.range 8).map fun i => (n >>> (16 * (7 - i))) % 65536

def quad (n : Nat) : List Char := List.intercalate ['.'] ((octets n).map Numeral.decimal)

def colonated (gs : List Nat) : List Char := List.intercalate [':'] (gs.map Numeral.hex)

/-- The start and the length of the longest run of zeros, the first of several. `seen` is the
length of the run that ends before `i`, and `best` the longest run so far. -/
def longestRun : List Nat → Nat → Nat → Nat × Nat → Nat × Nat
  | [], _, _, best => best
  | g :: gs, i, seen, best =>
    if g = 0 then
      longestRun gs (i + 1) (seen + 1) (if seen + 1 > best.2 then (i - seen, seen + 1) else best)
    else longestRun gs (i + 1) 0 best

/-- A long address: the first longest run of two or more zero groups becomes the gap. An address
that embeds a short one, `::ffff:a.b.c.d`, is written with the octets of that. -/
def long (n : Nat) : List Char :=
  if n / 0x100000000 = 0xffff then "::ffff:".toList ++ quad (n % 0x100000000)
  else
    let gs := groups n
    let (start, len) := longestRun gs 0 0 (0, 0)
    if len > 1 then colonated (gs.take start) ++ "::".toList ++ colonated (gs.drop (start + len))
    else colonated gs

def ofAddress : {f : Family} → Address f → List Char
  | .v4, a => quad a.value
  | .v6, a => long a.value

/-- The written form of a subnet, host bits included. -/
def ofSubnet {f : Family} (s : Subnet f) : List Char :=
  ofAddress s.address ++ '/' :: Numeral.decimal s.length

end NetPool.Notation

namespace NetPool

def Address.ofText? (f : Family) (s : String) : Option (Address f) := Notation.address? f s.toList

def Address.text {f : Family} (a : Address f) : String := String.ofList (Notation.ofAddress a)

def Subnet.ofText? (f : Family) (s : String) : Option (Subnet f) := Notation.subnet? f s.toList

def Subnet.text {f : Family} (s : Subnet f) : String := String.ofList (Notation.ofSubnet s)

def AnyAddress.ofText? (s : String) : Option AnyAddress :=
  ((Address.ofText? .v4 s).map fun a => ⟨.v4, a⟩) <|>
    ((Address.ofText? .v6 s).map fun a => ⟨.v6, a⟩)

def AnyAddress.text (a : AnyAddress) : String := a.address.text

def AnySubnet.ofText? (s : String) : Option AnySubnet :=
  ((Subnet.ofText? .v4 s).map .of) <|> ((Subnet.ofText? .v6 s).map .of)

def AnySubnet.text (s : AnySubnet) : String := s.subnet.text

end NetPool
