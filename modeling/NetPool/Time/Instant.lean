/-! # Instants

A point in time is kept as its date and time of day in coordinated universal time. Second 60 is
a leap second, which differs from the second after it. -/

namespace NetPool

def isLeapYear (year : Int) : Bool := year % 4 = 0 && (year % 100 ≠ 0 || year % 400 = 0)

def daysInMonth (year : Int) (month : Nat) : Nat :=
  if month = 2 then if isLeapYear year then 29 else 28
  else if month = 4 ∨ month = 6 ∨ month = 9 ∨ month = 11 then 30
  else 31

/-- A day of the calendar. -/
structure Date where
  year : Int
  month : Nat
  day : Nat
  deriving DecidableEq, Repr

namespace Date

def firstYear : Int := -262143

def lastYear : Int := 262142

/-- Whether the day exists and lies in the supported years. -/
def isValid (d : Date) : Bool :=
  firstYear ≤ d.year && d.year ≤ lastYear && 1 ≤ d.month && d.month ≤ 12 && 1 ≤ d.day &&
    d.day ≤ daysInMonth d.year d.month

def previous (d : Date) : Date :=
  if d.day > 1 then ⟨d.year, d.month, d.day - 1⟩
  else if d.month > 1 then ⟨d.year, d.month - 1, daysInMonth d.year (d.month - 1)⟩
  else ⟨d.year - 1, 12, 31⟩

def following (d : Date) : Date :=
  if d.day < daysInMonth d.year d.month then ⟨d.year, d.month, d.day + 1⟩
  else if d.month < 12 then ⟨d.year, d.month + 1, 1⟩
  else ⟨d.year + 1, 1, 1⟩

def epoch : Date := ⟨1970, 1, 1⟩

/-- The day that many days after the epoch. -/
def afterEpoch (days : Nat) : Date := Nat.repeat following days epoch

end Date

/-- A point in time, to the nanosecond. -/
structure Instant where
  date : Date
  minute : Nat
  second : Nat
  nano : Nat
  date_valid : date.isValid = true
  minute_lt : minute < 24 * 60
  second_le : second ≤ 60
  nano_lt : nano < 1000000000
  deriving DecidableEq, Repr

namespace Instant

def hour (t : Instant) : Nat := t.minute / 60

def minuteOfHour (t : Instant) : Nat := t.minute % 60

/-- The instant with those parts, if they name one. -/
def ofParts? (date : Date) (minute second nano : Nat) : Option Instant :=
  if h : date.isValid = true ∧ minute < 24 * 60 ∧ second ≤ 60 ∧ nano < 1000000000 then
    some ⟨date, minute, second, nano, h.1, h.2.1, h.2.2.1, h.2.2.2⟩
  else none

/-- The start of the day that the count of days starts from. -/
def epoch : Instant where
  date := Date.epoch
  minute := 0
  second := 0
  nano := 0
  date_valid := by decide
  minute_lt := by decide
  second_le := by decide
  nano_lt := by decide

/-- The instant that many nanoseconds after the epoch, or the epoch if that is too late. -/
def afterEpoch (nanos : Nat) : Instant :=
  let seconds := nanos / 1000000000
  let minutes := seconds / 60
  (ofParts? (Date.afterEpoch (minutes / (24 * 60))) (minutes % (24 * 60)) (seconds % 60)
    (nanos % 1000000000)).getD epoch

/-- The instant at which a clock shows the given local time, when that clock is `offset` minutes
ahead. The offset is less than a day; `none` if the result leaves the supported years. -/
def ofLocal? (date : Date) (minute second nano : Nat) (offset : Int) : Option Instant :=
  let shifted := (minute : Int) - offset
  if shifted < 0 then ofParts? date.previous (shifted + 24 * 60).toNat second nano
  else if shifted ≥ 24 * 60 then ofParts? date.following (shifted - 24 * 60).toNat second nano
  else ofParts? date shifted.toNat second nano

end Instant
end NetPool
