import NetPool.Json.Text

/-! # JSON numbers

A whole number is kept exactly while it fits in 64 bits. Any other number is a floating-point
one: its digits, as far as they fit in 64 bits, times a power of ten, with a rounding after each
step. -/

namespace NetPool.Json

inductive Number where
  /-- A whole number of at most 64 bits. -/
  | natural (n : Nat)
  /-- A whole number below zero, given by its distance from zero. -/
  | negative (n : Nat)
  | float (x : Binary64)
  deriving DecidableEq

def Number.found : Number → Found
  | .natural n => .integer n
  | .negative n => .integer (-n)
  | .float x => .float x

def wholeLimit : Nat := 0x10000000000000000

def exponentLimit : Nat := 0x80000000

/-- Digits gathered into a number while it fits: the number, and the digits left over. -/
def gather (bound : Nat) : Nat → List Char → Nat × List Char
  | n, [] => (n, [])
  | n, c :: cs =>
    let m := n * 10 + (Numeral.digitValue? c).getD 0
    if m < bound then gather bound m cs else (n, c :: cs)

def digitRun (cs : List Char) : List Char × List Char :=
  (cs.takeWhile (Numeral.isDigit 10), cs.dropWhile (Numeral.isDigit 10))

/-- `x * 10 ^ exponent`, with a rounding for every `10 ^ 308`. A number that leaves the format
upwards is a fault; `fuel` bounds the divisions that a number survives. -/
def scaleByTen : (fuel : Nat) → Binary64 → Int → Except Fault Binary64
  | 0, x, _ => .ok x
  | fuel + 1, x, exponent =>
    if exponent.natAbs ≤ 308 then
      -- The power of ten is a floating-point number, too, and rounded before it is used.
      if exponent ≥ 0 then
        match Binary64.ofDecimal false 1 exponent with
        | .finite _ m e =>
          let (n, d) := Binary64.scaled m 1 (-e)
          match x.scale n d with
          | .infinite _ => .error .numberOutOfRange
          | y => .ok y
        | _ => .error .numberOutOfRange
      else
        match Binary64.ofDecimal false 1 (-exponent) with
        | .finite _ m e => let (n, d) := Binary64.scaled m 1 (-e); .ok (x.scale d n)
        | _ => .ok x
    else if x.isZero then .ok x
    else if exponent ≥ 0 then .error .numberOutOfRange
    else
      match Binary64.ofDecimal false 1 308 with
      | .finite _ m e =>
        let (n, d) := Binary64.scaled m 1 (-e)
        scaleByTen fuel (x.scale d n) (exponent + 308)
      | _ => .ok x

def floatOf (negative : Bool) (significand : Nat) (exponent : Int) : Except Fault Number := do
  let x ← scaleByTen 4 (Binary64.ofNat significand) exponent
  return .float (if negative then x.negate else x)

def readExponent (negative : Bool) (significand : Nat) (start : Int) (cs : List Char) :
    Result Number :=
  let (down, cs) := match cs with
    | '+' :: rest => (false, rest)
    | '-' :: rest => (true, rest)
    | _ => (false, cs)
  let (digits, rest) := digitRun cs
  if cs.isEmpty then .error .endOfValue
  else if digits.isEmpty then .error .badNumber
  else
    match gather exponentLimit 0 digits with
    | (e, []) =>
      (floatOf negative significand (if down then start - e else start + e)).map (·, rest)
    | _ =>
      -- With an exponent that large, a number is zero or out of range.
      if significand ≠ 0 ∧ !down then .error .numberOutOfRange
      else .ok (.float (.finite negative 0 Binary64.leastExponent), rest)

/-- Reads an exponent, if there is one, after the digits of a floating-point number. -/
def readFloatEnd (negative : Bool) (significand : Nat) (exponent : Int) (cs : List Char) :
    Result Number :=
  match cs with
  | 'e' :: rest | 'E' :: rest => readExponent negative significand exponent rest
  | _ => (floatOf negative significand exponent).map (·, cs)

def readFraction (negative : Bool) (significand : Nat) (exponent : Int) (cs : List Char) :
    Result Number :=
  let (digits, rest) := digitRun cs
  if digits.isEmpty then .error (if rest.isEmpty then .endOfValue else .badNumber)
  else
    -- Digits of the fraction that no longer fit are dropped.
    let (m, left) := gather wholeLimit significand digits
    readFloatEnd negative m (exponent - (digits.length - left.length : Nat)) rest

/-- A whole number with its sign. A negative zero, and one below the signed 64-bit numbers, is a
floating-point number. -/
def wholeNumber (negative : Bool) (n : Nat) : Number :=
  if !negative then .natural n
  else if n = 0 ∨ n > 0x8000000000000000 then .float (Binary64.ofNat n).negate
  else .negative n

def readNumberEnd (negative : Bool) (digits rest : List Char) : Result Number :=
  -- Digits that no longer fit count only as places.
  let (n, left) := gather wholeLimit 0 digits
  match rest with
  | '.' :: cs => readFraction negative n left.length cs
  | 'e' :: cs | 'E' :: cs => readExponent negative n left.length cs
  | _ =>
    if left.isEmpty then .ok (wholeNumber negative n, rest)
    else (floatOf negative n left.length).map (·, rest)

def readUnsigned (negative : Bool) (cs : List Char) : Result Number :=
  let (digits, rest) := digitRun cs
  if cs.isEmpty then .error .endOfValue
  else if digits.isEmpty ∨ digits.head? = some '0' ∧ digits.length > 1 then .error .badNumber
  else readNumberEnd negative digits rest

def readNumber : List Char → Result Number
  | '-' :: cs => readUnsigned true cs
  | cs => readUnsigned false cs

end NetPool.Json
