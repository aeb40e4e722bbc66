import NetPool.Settings.KeyPath
import NetPool.Toml.Value

/-! # Environment variables

The name of a variable leads to a setting, and its text counts as the value that it looks like: a
boolean, an integer, a floating-point number, or else a text. -/

namespace NetPool

namespace Settings

/-! ## Names -/

/-- The start of the name of every variable that holds a setting, in lower case. -/
def variableStart : List Char := "netres__".toList

/-- The key in which every two low lines are a point. -/
def pointed : List Char → List Char
  | '_' :: '_' :: cs => '.' :: pointed cs
  | c :: cs => c :: pointed cs
  | [] => []

/-- The key that a variable sets, if it sets any. -/
def variableKey? (name : String) : Option (List Char) :=
  let name := lower name.toList
  if variableStart.isPrefixOf name then some (pointed (name.drop variableStart.length)) else none

/-! ## Values -/

def splitSign : List Char → Bool × List Char
  | '-' :: cs => (true, cs)
  | '+' :: cs => (false, cs)
  | cs => (false, cs)

/-- The integer of 64 bits that the whole text writes. -/
def integerText? (cs : List Char) : Option Toml.Scalar :=
  let (negative, digits) := splitSign cs
  (Numeral.natural? digits).bind (Toml.Scalar.integer? negative)

/-- The power of ten that the whole text writes: a letter, a sign if need be, and digits. -/
def exponentText? : List Char → Option Int
  | [] => some 0
  | c :: cs =>
    if c = 'e' ∨ c = 'E' then
      let (negative, digits) := splitSign cs
      (Numeral.natural? digits).map fun n => if negative then -n else n
    else none

/-- The text after a point, which may be absent. -/
def dropPoint : List Char → List Char
  | '.' :: cs => cs
  | cs => cs

/-- The digits before the point, those after it, and the text that is left. -/
def splitDecimal (cs : List Char) : List Char × List Char × List Char :=
  let rest := cs.dropWhile (Numeral.isDigit 10)
  let after := dropPoint rest
  if after.length = rest.length then (cs.takeWhile (Numeral.isDigit 10), [], rest)
  else
    (cs.takeWhile (Numeral.isDigit 10), after.takeWhile (Numeral.isDigit 10),
      after.dropWhile (Numeral.isDigit 10))

/-- The floating-point number that the whole text writes. One digit at least is due, before or
after the point. -/
def floatText? (cs : List Char) : Option Binary64 :=
  let (negative, body) := splitSign cs
  let word := body.map Char.toLower
  if word = "inf".toList ∨ word = "infinity".toList then some (.infinite negative)
  else if word = "nan".toList then some .nan
  else
    let (whole, places, rest) := splitDecimal body
    if whole.isEmpty && places.isEmpty then none
    else
      (exponentText? rest).map fun power =>
        .ofDecimal negative (Numeral.value 10 (whole ++ places)) (power - places.length)

/-- The boolean that the whole text writes, in any case. -/
def booleanText? (cs : List Char) : Option Bool :=
  let word := cs.map Char.toLower
  if word = "true".toList then some true
  else if word = "false".toList then some false
  else none

/-- The value that the text of a variable looks like. -/
def variableValue (text : String) : Toml.Scalar :=
  let cs := text.toList
  match booleanText? cs, integerText? cs, floatText? cs with
  | some b, _, _ => .boolean b
  | none, some n, _ => n
  | none, none, some x => .float x
  | none, none, none => .text text

end Settings
end NetPool
