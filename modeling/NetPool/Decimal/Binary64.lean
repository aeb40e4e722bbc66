/-! # Binary floating point

Numbers of the double format, in exact arithmetic: a finite one is `mantissa * 2 ^ exponent`.
Every operation rounds the exact result to the nearest number of the format, a tie to the even
mantissa. -/

namespace NetPool

/-- A number of the double format. The mantissa of a finite one has at most 53 bits. -/
inductive Binary64 where
  | nan
  | infinite (negative : Bool)
  | finite (negative : Bool) (mantissa : Nat) (exponent : Int)
  deriving DecidableEq, Repr

namespace Binary64

def precision : Nat := 53

def mantissaLimit : Nat := 0x20000000000000

def leastExponent : Int := -1074

/-- The greatest exponent of the format. -/
def greatestExponent : Int := 971

/-- A quotient of natural numbers scaled by `2 ^ -e`, as numerator and denominator. -/
def scaled (num den : Nat) (e : Int) : Nat × Nat :=
  if e ≥ 0 then (num, den <<< e.toNat) else (num <<< (-e).toNat, den)

/-- The natural number nearest to a quotient, a tie to the even one. -/
def roundHalfEven (num den : Nat) : Nat :=
  let q := num / den
  let r := num % den
  if 2 * r > den ∨ 2 * r = den ∧ q % 2 = 1 then q + 1 else q

/-- The number nearest to `num / den`. -/
def ofRatio (negative : Bool) (num den : Nat) : Binary64 :=
  if num = 0 ∨ den = 0 then .finite negative 0 leastExponent
  else
    let guess := max ((num.log2 : Int) - den.log2 - precision) leastExponent
    -- The guess is exact or too small by one.
    let (n, d) := scaled num den guess
    let e := if n / d < mantissaLimit then guess else guess + 1
    let (n, d) := scaled num den e
    let m := roundHalfEven n d
    -- Rounding up may have led to the next power of two.
    let (m, e) := if m = mantissaLimit then (mantissaLimit / 2, e + 1) else (m, e)
    if e > greatestExponent then .infinite negative else .finite negative m e

def ofNat (n : Nat) : Binary64 := ofRatio false n 1

/-- The number nearest to `digits * 10 ^ exponent`. Powers far outside the format are not
computed. -/
def ofDecimal (negative : Bool) (digits : Nat) (exponent : Int) : Binary64 :=
  let magnitude := exponent + (Nat.toDigits 10 digits).length
  if digits = 0 ∨ magnitude < -400 then .finite negative 0 leastExponent
  else if magnitude > 400 then .infinite negative
  else if exponent ≥ 0 then ofRatio negative (digits * Nat.pow 10 exponent.toNat) 1
  else ofRatio negative digits (Nat.pow 10 (-exponent).toNat)

/-- The exact product with `num / den`, rounded. -/
def scale (x : Binary64) (num den : Nat) : Binary64 :=
  match x with
  | .finite s m e => let (n, d) := scaled (m * num) den (-e); ofRatio s n d
  | x => x

def negate : Binary64 → Binary64
  | .nan => .nan
  | .infinite s => .infinite !s
  | .finite s m e => .finite (!s) m e

def isZero : Binary64 → Bool
  | .finite _ m _ => m = 0
  | _ => false

/-- The natural number nearest to a non-negative number, a half going up, and `limit` at most.
Negative numbers give zero, and so does the absence of a number. -/
def toNatClamped (limit : Nat) : Binary64 → Nat
  | .nan => 0
  | .infinite negative => if negative then 0 else limit
  | .finite negative m e =>
    if negative then 0
    else
      let (n, d) := scaled m 1 (-e)
      min limit ((2 * n + d) / (2 * d))

end Binary64
end NetPool
