import NetPool.Toml.Text
import NetPool.Toml.Value

/-! # TOML numbers

Integers have 64 bits and are written in base ten with a sign, or in base 16, 8 or 2 without one.
A number with a fraction or an exponent is a floating-point one. Low lines may part digits. -/

namespace NetPool.Toml

def expect (c : Char) : Reader Unit := fun cs =>
  match cs with
  | [] => none
  | d :: rest => if d = c then some ((), rest) else none

def expectWord (word : String) : Reader Unit := fun cs =>
  if word.toList.isPrefixOf cs then some ((), cs.drop word.length) else none

/-- Whether every low line stands between two digits; `afterDigit` says that a digit was last. -/
def isSpaced : (afterDigit : Bool) → List Char → Bool
  | afterDigit, [] => afterDigit
  | afterDigit, c :: cs => if c = '_' then afterDigit && isSpaced false cs else isSpaced true cs

/-- Reads one or more digits of the base, which low lines may part, and returns the digits. -/
def digits (base : Nat) : Reader (List Char) := fun cs =>
  let isPart (c : Char) : Bool := Numeral.isDigit base c || c = '_'
  let part := cs.takeWhile isPart
  if isSpaced false part then some (part.filter (· ≠ '_'), cs.dropWhile isPart) else none

/-- Reads an optional sign: whether it is a minus. -/
def sign : Reader Bool := fun cs =>
  match cs with
  | '-' :: rest => some (true, rest)
  | '+' :: rest => some (false, rest)
  | _ => some (false, cs)

/-- Reads an integer in base 16, 8 or 2 after the letter of that base. -/
def basedInteger (letter : Char) (base : Nat) : Reader Scalar := do
  expect '0'
  expect letter
  let ds ← digits base
  StateT.lift (Scalar.integer? false (Numeral.value base ds))

/-- Reads the digits after a point; there are none without a point. -/
def fraction : Reader (List Char) := fun cs =>
  match cs with
  | '.' :: rest => digits 10 rest
  | _ => some ([], cs)

/-- Reads the power of ten after its letter, if there is one. -/
def exponent : Reader (Option Int) := fun cs =>
  match cs with
  | 'e' :: rest | 'E' :: rest => StateT.run (do
      let negative ← sign
      let n := Numeral.value 10 (← digits 10)
      return some (if negative then -n else n)) rest
  | _ => some (none, cs)

/-- A floating-point number that was read. Only below zero may it leave the format. -/
def finished (x : Binary64) : Option Scalar := if x = .infinite false then none else some (.float x)

/-- Reads a number in base ten. Only a zero may start with a zero. -/
def decimalNumber : Reader Scalar := do
  let negative ← sign
  let whole ← digits 10
  if whole.head? = some '0' ∧ whole.length > 1 then failure
  let places ← fraction
  match places, ← exponent with
  | [], none => StateT.lift (Scalar.integer? negative (Numeral.value 10 whole))
  | places, power =>
    StateT.lift (finished (.ofDecimal negative (Numeral.value 10 (whole ++ places))
      (power.getD 0 - places.length)))

def specialNumber : Reader Scalar := do
  let negative ← sign
  (do expectWord "inf"; return .float (.infinite negative)) <|>
    (do expectWord "nan"; return .float .nan)

def number : Reader Scalar :=
  basedInteger 'x' 16 <|> basedInteger 'o' 8 <|> basedInteger 'b' 2 <|> specialNumber <|>
    decimalNumber

end NetPool.Toml
