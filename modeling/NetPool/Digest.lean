/-! # Message digests

The 160-bit secure hash of a list of bytes. The message is padded to whole blocks of sixteen
words; each block is stretched to eighty words, which stir a state of five. -/

namespace NetPool.Digest

/-- The five words that blocks stir. -/
structure State where
  a : UInt32
  b : UInt32
  c : UInt32
  d : UInt32
  e : UInt32

def initial : State := ⟨0x67452301, 0xefcdab89, 0x98badcfe, 0x10325476, 0xc3d2e1f0⟩

def rotate (x n : UInt32) : UInt32 := (x <<< n) ||| (x >>> (32 - n))

def wordBytes (w : UInt32) : List UInt8 :=
  [(w >>> 24).toUInt8, (w >>> 16).toUInt8, (w >>> 8).toUInt8, w.toUInt8]

/-- The message followed by a one bit, zeros, and its length in bits, filling whole blocks. -/
def padded (message : List UInt8) : List UInt8 :=
  let bits := message.length * 8
  let zeros := (119 - message.length % 64) % 64
  message ++ 0x80 :: List.replicate zeros 0 ++ wordBytes (bits / 0x100000000).toUInt32 ++
    wordBytes bits.toUInt32

def words : List UInt8 → List UInt32
  | a :: b :: c :: d :: rest =>
    (a.toUInt32 <<< 24 ||| b.toUInt32 <<< 16 ||| c.toUInt32 <<< 8 ||| d.toUInt32) :: words rest
  | _ => []

/-- Adds `n` words, each from the words three, eight, fourteen and sixteen places before it. -/
def stretch : Nat → Array UInt32 → Array UInt32
  | 0, w => w
  | n + 1, w =>
    let back (k : Nat) : UInt32 := w.getD (w.size - k) 0
    stretch n (w.push (rotate (back 3 ^^^ back 8 ^^^ back 14 ^^^ back 16) 1))

/-- The mixing function and the constant of round `i`. -/
def round (i : Nat) (s : State) : UInt32 × UInt32 :=
  if i < 20 then ((s.b &&& s.c) ||| (~~~s.b &&& s.d), 0x5a827999)
  else if i < 40 then (s.b ^^^ s.c ^^^ s.d, 0x6ed9eba1)
  else if i < 60 then ((s.b &&& s.c) ||| (s.b &&& s.d) ||| (s.c &&& s.d), 0x8f1bbcdc)
  else (s.b ^^^ s.c ^^^ s.d, 0xca62c1d6)

def stir (s : State) (wi : UInt32 × Nat) : State :=
  let (f, k) := round wi.2 s
  ⟨rotate s.a 5 + f + s.e + k + wi.1, s.a, rotate s.b 30, s.c, s.d⟩

def block (s : State) (ws : List UInt32) : State :=
  let t := (stretch 64 ws.toArray).toList.zipIdx.foldl stir s
  ⟨s.a + t.a, s.b + t.b, s.c + t.c, s.d + t.d, s.e + t.e⟩

def blocks : Nat → State → List UInt32 → State
  | 0, s, _ => s
  | n + 1, s, ws => blocks n (block s (ws.take 16)) (ws.drop 16)

def bytes (message : List UInt8) : List UInt8 :=
  let ws := words (padded message)
  let s := blocks (ws.length / 16) initial ws
  [s.a, s.b, s.c, s.d, s.e].flatMap wordBytes

end NetPool.Digest
