import NetPool.Text.Blank
import NetPool.Text.Numeral
import NetPool.Time.Fault

/-! # Written instants

An instant is written as a date, a `T`, a time of day and `Z`. Readers also take blanks before
most parts, other separators between date and time, and any offset of less than a day. -/

namespace NetPool.Instant

/-- A reader of one part of a written instant. -/
abbrev PartReader (α : Type) : Type := StateT (List Char) (Except Fault) α

namespace Notation

def numberLimit : Nat := 0x7fffffffffffffff

/-- Reads a number of at most `places` digits; at least one is due. -/
def number (places : Option Nat) : PartReader Nat := fun cs =>
  let front := match places with | some k => cs.take k | none => cs
  let digits := front.takeWhile (Numeral.isDigit 10)
  if cs.isEmpty then .error .tooShort
  else if digits.isEmpty then .error .badCharacters
  else if Numeral.value 10 digits > numberLimit then .error .outOfRange
  else .ok (Numeral.value 10 digits, cs.drop digits.length)

def blanks : PartReader Unit := fun cs => .ok ((), Text.trimStart cs)

/-- Reads a number of at most two digits in the given range, after blanks. -/
def bounded (low high : Nat) : PartReader Nat := do
  blanks
  let n ← number (some 2)
  if low ≤ n ∧ n ≤ high then return n else throw .outOfRange

def yearBound : Int := 0x80000000

/-- Reads a year: four digits at most, or any number of them after a sign. -/
def year : PartReader Int := do
  blanks
  let cs ← get
  let y ← match cs with
    | '-' :: rest => do
      set rest
      let n ← number none
      pure (-(n : Int))
    | '+' :: rest => do
      set rest
      let n ← number none
      pure (n : Int)
    | _ => do
      let n ← number (some 4)
      pure (n : Int)
  if -yearBound ≤ y ∧ y < yearBound then return y else throw .outOfRange

/-- Drops the separator `c`, after blanks. -/
def separator (c : Char) : PartReader Unit := fun cs =>
  match Text.trimStart cs with
  | [] => .error .tooShort
  | d :: rest => if d = c then .ok ((), rest) else .error .badCharacters

/-- Drops the mark between date and time. -/
def timeMark : PartReader Unit := fun cs =>
  match cs with
  | [] => .error .tooShort
  | c :: rest => if c = 't' ∨ c = 'T' ∨ c = ' ' then .ok ((), rest) else .error .badCharacters

/-- Reads the fraction of a second in nanoseconds, if there is one. Digits after the ninth are
dropped. -/
def fraction : PartReader Nat := do
  match ← get with
  | '.' :: rest =>
    set rest
    let n ← number (some 9)
    let used := min 9 (rest.takeWhile (Numeral.isDigit 10)).length
    modify (·.dropWhile (Numeral.isDigit 10))
    return n * Nat.pow 10 (9 - used)
  | _ => return 0

/-- Whether the text starts with the name of universal time. -/
def isUniversal (cs : List Char) : Bool := (cs.take 3).map Char.toUpper = ['U', 'T', 'C']

def byteLength (cs : List Char) : Nat := (String.ofList cs).utf8ByteSize

/-- Two digits, the first at most `top`. The text may be too short, or not be digits. -/
def twoDigits : PartReader Nat := fun cs =>
  if byteLength cs < 2 then .error .tooShort
  else
    match cs with
    | a :: b :: rest =>
      if Numeral.isDigit 10 a ∧ Numeral.isDigit 10 b then .ok (Numeral.value 10 [a, b], rest)
      else .error .badCharacters
    | _ => .error .badCharacters

/-- Reads a signed offset in minutes: hours, any colons and blanks, and minutes. -/
def signedOffset : PartReader Int := do
  let cs ← get
  let negative ← match cs with
    | [] => throw .tooShort
    | c :: rest => do
      set rest
      if c = '+' then pure false
      -- The typographic minus is taken for the other one.
      else if c = '-' ∨ c = '\u2212' then pure true
      else throw .badCharacters
  let hours ← twoDigits
  modify (·.dropWhile fun c => c = ':' || Text.isBlank c)
  let minutes ← twoDigits
  if minutes ≥ 60 then throw .outOfRange
  let total : Int := hours * 60 + minutes
  return if negative then -total else total

/-- Reads an offset in minutes; universal time has none. -/
def offset : PartReader Int := do
  blanks
  let cs ← get
  if isUniversal cs then
    set (cs.drop 3)
    return 0
  match cs with
  | 'Z' :: rest | 'z' :: rest => do
    set rest
    return 0
  | _ => signedOffset

/-- What a written instant says. -/
structure Parts where
  date : Date
  hour : Nat
  minute : Nat
  second : Nat
  nano : Nat
  offset : Int

def parts : PartReader Parts := do
  let y ← year
  separator '-'
  let m ← bounded 1 12
  separator '-'
  let d ← bounded 1 31
  timeMark
  let hour ← bounded 0 23
  separator ':'
  let minute ← bounded 0 59
  separator ':'
  let second ← bounded 0 60
  let nano ← fraction
  let off ← offset
  return ⟨⟨y, m, d⟩, hour, minute, second, nano, off⟩

def Parts.instant (p : Parts) : Except Fault Instant :=
  if !p.date.isValid || p.offset ≤ -(24 * 60) || p.offset ≥ 24 * 60 then .error .outOfRange
  else
    match ofLocal? p.date (p.hour * 60 + p.minute) p.second p.nano p.offset with
    | some t => .ok t
    | none => .error .noSuchTime

/-- The instant that the whole text writes, blanks at its end apart. -/
def read (cs : List Char) : Except Fault Instant := do
  let (p, rest) ← parts.run cs
  if (Text.trimStart rest).isEmpty then p.instant else throw .trailingText

def two (n : Nat) : List Char := Numeral.padded 2 (Numeral.decimal n)

/-- The digits of a year: four at least, and a sign outside of the years 0 to 9999. -/
def yearDigits (y : Int) : List Char :=
  (if y < 0 then ['-'] else if y > 9999 then ['+'] else []) ++
    Numeral.padded 4 (Numeral.decimal y.natAbs)

/-- The digits of a fraction: none, three, six or nine, the fewest that are exact. -/
def fractionDigits (nano : Nat) : List Char :=
  if nano = 0 then []
  else if nano % 1000000 = 0 then '.' :: Numeral.padded 3 (Numeral.decimal (nano / 1000000))
  else if nano % 1000 = 0 then '.' :: Numeral.padded 6 (Numeral.decimal (nano / 1000))
  else '.' :: Numeral.padded 9 (Numeral.decimal nano)

def write (t : Instant) : List Char :=
  yearDigits t.date.year ++ '-' :: two t.date.month ++ '-' :: two t.date.day ++ 'T' ::
    two t.hour ++ ':' :: two t.minuteOfHour ++ ':' :: two t.second ++ fractionDigits t.nano ++ ['Z']

end Notation

def ofText? (s : String) : Except Fault Instant := Notation.read s.toList

def text (t : Instant) : String := String.ofList (Notation.write t)

end NetPool.Instant
