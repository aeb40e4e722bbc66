/-! # Numerals

Natural numbers in decimal and hexadecimal digits. -/

namespace NetPool.Numeral

/-- The value of a digit of any base up to sixteen; letters count in either case. -/
def digitValue? (c : Char) : Option Nat :=
  if '0' ≤ c ∧ c ≤ '9' then some (c.toNat - '0'.toNat)
  else if 'a' ≤ c ∧ c ≤ 'f' then some (c.toNat - 'a'.toNat + 10)
  else if 'A' ≤ c ∧ c ≤ 'F' then some (c.toNat - 'A'.toNat + 10)
  else none

def isDigit (base : Nat) (c : Char) : Bool :=
  match digitValue? c with
  | some d => d < base
  | none => false

/-- The number that a list of digits writes, most significant first. -/
def value (base : Nat) (digits : List Char) : Nat :=
  digits.foldl (fun n c => n * base + (digitValue? c).getD 0) 0

/-- The decimal digits of a number, without leading zeros. -/
def decimal (n : Nat) : List Char := Nat.toDigits 10 n

/-- The lower-case hexadecimal digits of a number, without leading zeros. -/
def hex (n : Nat) : List Char := Nat.toDigits 16 n

def text (n : Nat) : String := String.ofList (decimal n)

def integerText (n : Int) : String := (if n < 0 then "-" else "") ++ text n.natAbs

/-- The digits with zeros in front, up to `width` places. -/
def padded (width : Nat) (digits : List Char) : List Char :=
  List.replicate (width - digits.length) '0' ++ digits

/-- The number that the whole text writes in decimal digits. -/
def natural? (cs : List Char) : Option Nat :=
  if !cs.isEmpty && cs.all (isDigit 10) then some (value 10 cs) else none

/-- The text after a plus, which may be absent. -/
def dropPlus : List Char → List Char
  | '+' :: cs => cs
  | cs => cs

/-- The number below `limit` that the whole text writes in decimal digits, after a plus if there
is one. -/
def unsigned? (limit : Nat) (cs : List Char) : Option Nat :=
  (natural? (dropPlus cs)).filter (· < limit)

/-- The bound of the absolute value of a number of 64 bits with a sign; only one below zero reaches
it. -/
def signedBound : Nat := 0x8000000000000000

/-- The number of 64 bits with that sign and absolute value, if there is one. -/
def signed? (negative : Bool) (n : Nat) : Option Int :=
  if negative then if n ≤ signedBound then some (-n) else none
  else if n < signedBound then some n
  else none

/-- Reads all the digits that stand in front. There must be between one and `places` of them,
and their number must be below `limit`. -/
def read (base places limit : Nat) (cs : List Char) : Option (Nat × List Char) :=
  let digits := cs.takeWhile (isDigit base)
  if digits.isEmpty || digits.length > places || value base digits ≥ limit then none
  else some (value base digits, cs.dropWhile (isDigit base))

end NetPool.Numeral
