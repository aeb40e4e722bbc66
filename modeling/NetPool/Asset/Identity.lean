import NetPool.Asset
import NetPool.Digest
import NetPool.Net.Notation

/-! # Asset identity

The identity of an asset is a name-based identifier of its six values. The stamps of an entry
are left out, so an entry keeps its identity when it is read again. -/

namespace NetPool

structure Identifier where
  bytes : List UInt8
  deriving DecidableEq

namespace Identifier

/-- The identifier of a name within a name space: the digest of both, cut to sixteen bytes and
marked as name-based. -/
def ofName (space name : List UInt8) : Identifier :=
  ⟨(Digest.bytes (space ++ name)).take 16 |>.mapIdx fun i b =>
    if i = 6 then b &&& 0x0f ||| 0x50 else if i = 8 then b &&& 0x3f ||| 0x80 else b⟩

def byteDigits (b : UInt8) : List Char := Numeral.padded 2 (Numeral.hex b.toNat)

/-- The text of an identifier: hexadecimal digits in groups of 8, 4, 4, 4 and 12. -/
def text (id : Identifier) : String :=
  let digits (i n : Nat) : List Char := ((id.bytes.drop i).take n).flatMap byteDigits
  String.ofList (List.intercalate ['-']
    [digits 0 4, digits 4 2, digits 6 2, digits 8 2, digits 10 6])

end Identifier

namespace Asset

def nameSpace : List UInt8 :=
  [0x3f, 0x1c, 0x52, 0x8e, 0x6a, 0x04, 0x4d, 0x2b, 0x9e, 0x71, 0xc5, 0x0a, 0x88, 0x13, 0xd7, 0x46]

/-- The text that an identity is made from: the six values with bars between them. -/
def identityText (a : Asset) : String :=
  String.intercalate "|" [a.machineCidr.text, a.machineCidr6.text, a.provisioningCidr.text,
    a.provisioningCidr6.text, a.networkIf, a.secondaryNetworkIf]

/-- The identity of an asset. -/
def identity (a : Asset) : Identifier :=
  .ofName nameSpace a.identityText.toUTF8.toList

end Asset
end NetPool
