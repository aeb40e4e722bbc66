/-! # Bytes as text

Texts are stored in UTF-8. The output of a program may hold anything: what is no character is
replaced, one replacement for the longest start of a character that breaks off. -/

namespace NetPool.Text

/-- The replacement for what is no character. -/
def replacement : Char := '\ufffd'

/-- What a first byte announces: the number of bytes after it, the range of the second byte, and
the bits that it contributes. -/
def announces? (b : UInt8) : Option (Nat × UInt8 × UInt8 × Nat) :=
  if b < 0x80 then some (0, 0x80, 0xbf, b.toNat)
  else if b < 0xc2 then none
  else if b < 0xe0 then some (1, 0x80, 0xbf, b.toNat % 0x20)
  else if b < 0xf0 then
    some (2, if b = 0xe0 then 0xa0 else 0x80, if b = 0xed then 0x9f else 0xbf, b.toNat % 0x10)
  else if b < 0xf5 then
    some (3, if b = 0xf0 then 0x90 else 0x80, if b = 0xf4 then 0x8f else 0xbf, b.toNat % 0x08)
  else none

/-- Reads bytes as text. `due` bytes are still due for the character begun, the next of them
between `low` and `high`, and `value` holds its bits so far. -/
def decodeFrom (due : Nat) (low high : UInt8) (value : Nat) : List UInt8 → List Char
  | [] => if due = 0 then [] else [replacement]
  | b :: bs =>
    if due ≠ 0 ∧ low ≤ b ∧ b ≤ high then
      let value := value * 64 + b.toNat % 64
      if due = 1 then Char.ofNat value :: decodeFrom 0 0x80 0xbf 0 bs
      else decodeFrom (due - 1) 0x80 0xbf value bs
    else
      let broken := if due = 0 then [] else [replacement]
      broken ++
        match announces? b with
        | none => replacement :: decodeFrom 0 0x80 0xbf 0 bs
        | some (0, _, _, bits) => Char.ofNat bits :: decodeFrom 0 0x80 0xbf 0 bs
        | some (due, low, high, bits) => decodeFrom due low high bits bs

/-- The characters of bytes, with replacements for what is no character. -/
def decodeLossy (bytes : ByteArray) : List Char := decodeFrom 0 0x80 0xbf 0 bytes.toList

end NetPool.Text
