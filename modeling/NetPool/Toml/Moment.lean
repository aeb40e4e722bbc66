import NetPool.Time.Instant
import NetPool.Toml.Number

/-! # TOML dates and times

A date, a time of day, or both with or without an offset. Its text is kept, with a `T` between
date and time, a `Z` in upper case, and a fraction without zeros at its end. -/

namespace NetPool.Toml

def placed (places : Nat) : Reader (List Char) := fun cs =>
  let ds := cs.take places
  if ds.length = places ∧ ds.all (Numeral.isDigit 10) then some (ds, cs.drop places) else none

def twoDigits (low high : Nat) : Reader (List Char) := do
  let ds ← placed 2
  if low ≤ Numeral.value 10 ds ∧ Numeral.value 10 ds ≤ high then return ds else failure

def date : Reader (List Char) := do
  let year ← placed 4
  expect '-'
  let month ← twoDigits 1 12
  expect '-'
  let day ← twoDigits 1 (daysInMonth (Numeral.value 10 year) (Numeral.value 10 month))
  return year ++ '-' :: month ++ '-' :: day

def fractionPlaces : Nat := 9

/-- The digits of a fraction that are kept. -/
def keptFraction (ds : List Char) : List Char :=
  ((ds.take fractionPlaces).reverse.dropWhile (· = '0')).reverse

def secondFraction : Reader (List Char) := fun cs =>
  match cs with
  | '.' :: rest =>
    let ds := rest.takeWhile (Numeral.isDigit 10)
    let kept := keptFraction ds
    if ds.isEmpty then none
    else some (if kept.isEmpty then [] else '.' :: kept, rest.dropWhile (Numeral.isDigit 10))
  | _ => some ([], cs)

def timeOfDay : Reader (List Char) := do
  let hour ← twoDigits 0 23
  expect ':'
  let minute ← twoDigits 0 59
  expect ':'
  let second ← twoDigits 0 60
  return hour ++ ':' :: minute ++ ':' :: second ++ (← secondFraction)

/-- Reads an offset with a sign. None at all is written with a plus. -/
def signedOffset (mark : Char) : Reader (List Char) := do
  expect mark
  let hour ← twoDigits 0 23
  expect ':'
  let minute ← twoDigits 0 59
  let isZero := (hour ++ minute).all (· = '0')
  return (if isZero then '+' else mark) :: hour ++ ':' :: minute

def offset : Reader (List Char) :=
  (do expect 'Z' <|> expect 'z'; return ['Z']) <|> signedOffset '+' <|> signedOffset '-' <|> pure []

def timeMark : Reader Unit := expect 'T' <|> expect 't' <|> expect ' '

def timeAfterDate : Reader (List Char) :=
  (do
    timeMark
    let time ← timeOfDay
    return 'T' :: time ++ (← offset)) <|> pure []

def moment : Reader Scalar :=
  (do
    let day ← date
    return .text (String.ofList (day ++ (← timeAfterDate)))) <|>
  (do return .text (String.ofList (← timeOfDay)))

end NetPool.Toml
