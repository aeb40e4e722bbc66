import NetPool.Decimal.Shortest

/-! # Decimal layouts

How the shortest decimal of a floating-point number is laid out: when an exponent is written,
and whether a number without fraction shows one. -/

namespace NetPool

/-- A layout. Powers of ten outside the bounds are written with an exponent; without bounds every
number is written in full. -/
structure Layout where
  bounds : Option (Int × Int)
  showsFraction : Bool
  tie : Shortest.Tie

namespace Layout

/-- The layout of values: always in full, and a whole number without a point. -/
def plain : Layout := ⟨none, false, .greater⟩

/-- The layout in messages about a file: an exponent from `10 ^ 16` up and below `10 ^ -5`, and
a whole number with `.0`. -/
def marked : Layout := ⟨some (-5, 15), true, .even⟩

/-- The digits with the point after the first `point` of them. -/
def inFull (l : Layout) (digits : List Char) (point : Int) : List Char :=
  if point ≤ 0 then ['0', '.'] ++ List.replicate (-point).toNat '0' ++ digits
  else if point.toNat < digits.length then
    digits.take point.toNat ++ '.' :: digits.drop point.toNat
  else
    digits ++ List.replicate (point.toNat - digits.length) '0' ++
      if l.showsFraction then ['.', '0'] else []

/-- The first digit, the others after a point, and the power of ten with its sign. -/
def withExponent (digits : List Char) (power : Int) : List Char :=
  digits.take 1 ++ (if digits.length > 1 then '.' :: digits.drop 1 else []) ++
    ['e', if power < 0 then '-' else '+'] ++ Nat.toDigits 10 power.natAbs

/-- The characters of a finite positive number, or of zero. -/
def magnitude (l : Layout) (mantissa : Nat) (exponent : Int) : List Char :=
  if mantissa = 0 then if l.showsFraction then ['0', '.', '0'] else ['0']
  else
    let d := Shortest.ofFinite l.tie mantissa exponent
    let digits := Nat.toDigits 10 d.digits
    let point := d.exponent + digits.length
    match l.bounds with
    | none => l.inFull digits point
    | some (least, greatest) =>
      if least ≤ point - 1 ∧ point - 1 ≤ greatest then l.inFull digits point
      else withExponent digits (point - 1)

def text (l : Layout) : Binary64 → String
  | .nan => "NaN"
  | .infinite negative => if negative then "-inf" else "inf"
  | .finite negative m e => String.ofList ((if negative then ['-'] else []) ++ l.magnitude m e)

end Layout
end NetPool
