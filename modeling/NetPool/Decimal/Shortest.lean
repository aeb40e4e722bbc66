import NetPool.Decimal.Binary64

/-! # Shortest decimals

The fewest decimal digits that read back as the same floating-point number, and of those the
nearest. Grids of one digit, two digits and so on are tried in turn; on each, only the two
neighbours of the number can serve. Which of two that are equally near is taken is for the
caller to say. -/

namespace NetPool.Shortest

/-- A decimal: `digits * 10 ^ exponent`. -/
structure Decimal where
  digits : Nat
  exponent : Int
  deriving DecidableEq, Repr

/-- Which of two decimals that are equally near is taken. -/
inductive Tie where
  | greater
  /-- The one with an even last digit. -/
  | even
  deriving DecidableEq, Repr

/-- Whether the point above `below` is taken if `below` is equally near. -/
def Tie.isAbove (t : Tie) (below : Nat) : Bool :=
  match t with
  | .greater => true
  | .even => below % 2 = 1

/-- The decimal without trailing zeros among its digits; `fuel` bounds their number. -/
def Decimal.trim : (fuel : Nat) → Decimal → Decimal
  | 0, d => d
  | fuel + 1, d =>
    if d.digits ≠ 0 ∧ d.digits % 10 = 0 then trim fuel ⟨d.digits / 10, d.exponent + 1⟩ else d

/-- The power of ten below the quotient: `10 ^ p ≤ num / den < 10 ^ (p + 1)`. -/
def magnitude (num den : Nat) : Int :=
  if num ≥ den then (Nat.toDigits 10 (num / den)).length - 1
  else
    let inverse := (den + num - 1) / num
    Int.neg (Nat.toDigits 10 (inverse - 1)).length

/-- The quotient `num / den` times `10 ^ -k`, as numerator and denominator. -/
def onGrid (num den : Nat) (k : Int) : Nat × Nat :=
  if k ≥ 0 then (num, den * Nat.pow 10 k.toNat) else (num * Nat.pow 10 (-k).toNat, den)

/-- The numbers that round to `mantissa * 2 ^ exponent` reach from `low` to `high`, in quarters
of the last place; the ends belong to them if the mantissa is even. -/
structure Interval where
  low : Nat
  value : Nat
  high : Nat
  closed : Bool

/-- The interval of a finite number. Below a power of two, numbers lie closer together. -/
def interval (mantissa : Nat) (exponent : Int) : Interval :=
  let isLeast := mantissa = Binary64.mantissaLimit / 2 ∧ exponent > Binary64.leastExponent
  ⟨if isLeast then 4 * mantissa - 1 else 4 * mantissa - 2, 4 * mantissa, 4 * mantissa + 2,
    mantissa % 2 = 0⟩

/-- Whether `d` points of the grid lie in the interval, where `n / den` is one quarter of a last
place on that grid. -/
def Interval.holds (i : Interval) (n den d : Nat) : Bool :=
  if i.closed then i.low * n ≤ d * den && d * den ≤ i.high * n
  else i.low * n < d * den && d * den < i.high * n

/-- Whether the point above `below` is to be taken rather than `below` itself, for the quotient
`num / den` between them. -/
def Tie.prefersAbove (t : Tie) (num den below : Nat) : Bool :=
  let twice := 2 * num
  let middle := (2 * below + 1) * den
  twice > middle || twice = middle && t.isAbove below

/-- Tries grids with more and more digits, `left` of them. -/
def search (t : Tie) (i : Interval) (num den : Nat) (top : Int) : (left places : Nat) → Decimal
  | 0, places => ⟨0, top - places⟩
  | left + 1, places =>
    let k := top - places
    let (n, d) := onGrid num den k
    -- Any other point of the grid is farther away than these two.
    let below := i.value * n / d
    let fitsBelow := i.holds n d below
    let fitsAbove := i.holds n d (below + 1)
    if fitsAbove && (!fitsBelow || t.prefersAbove (i.value * n) d below) then ⟨below + 1, k⟩
    else if fitsBelow then ⟨below, k⟩
    else search t i num den top left (places + 1)

/-- The shortest decimal of `mantissa * 2 ^ exponent`; the mantissa is not zero. -/
def ofFinite (t : Tie) (mantissa : Nat) (exponent : Int) : Decimal :=
  let quarter := Binary64.scaled 1 4 (-exponent)
  let top := magnitude (4 * mantissa * quarter.1) quarter.2
  (search t (interval mantissa exponent) quarter.1 quarter.2 top 18 0).trim 20

end NetPool.Shortest
