import NetPool.Decimal.Layout
import NetPool.Net.Notation
import NetPool.Text.Quoted
import NetPool.Toml.Value

/-! # What is wrong with configured settings -/

namespace NetPool

namespace Settings

/-- A value that does not fit its field, as messages describe it. -/
inductive Found where
  | nothing
  | sequence
  | map
  | text (s : String)
  /-- A number below zero. -/
  | negative (n : Int)
  /-- A number that is too large. -/
  | large (n : Nat)
  deriving DecidableEq

/-- What a field holds. -/
inductive FieldKind where
  | text
  | natural
  /-- A natural number as opposed to one below zero. -/
  | unsigned
  /-- A natural number of half the usual size. -/
  | short
  deriving DecidableEq

/-- A group of settings. -/
inductive Group where
  | settings
  | template
  deriving DecidableEq

inductive Fault where
  /-- The file is not well formed. -/
  | badSyntax
  /-- There is a file in a format that is not read here. -/
  | otherFormat
  /-- A value does not fit its field. Its origin is not always told. -/
  | wrongKind (found : Found) (expected : FieldKind) (origin : Option String)
  /-- A plain value, or nothing, stands where a group of settings is due. -/
  | wrongGroup (found : Option Toml.Scalar) (expected : Group)
  | badAddress
  /-- An index leads to a place before the start of a list or far beyond its end. -/
  | outOfRange
  deriving DecidableEq

def groupKey : String := "reserve"

def booleanText (b : Bool) : String := if b then "true" else "false"

def nothingWords : String := "unit value"

def Found.words : Found → String
  | .nothing => nothingWords
  | .sequence => "sequence"
  | .map => "map"
  | .text s => "string " ++ Text.quoted s
  | .negative n => "64-bit integer `" ++ Numeral.integerText n ++ "`"
  | .large n => "64-bit unsigned integer `" ++ Numeral.text n ++ "`"

def FieldKind.words : FieldKind → String
  | .text => "a string"
  | .natural => "an integer"
  | .unsigned => "an unsigned 64 bit or less integer"
  | .short => "an unsigned 32 bit integer"

def Group.words : Group → String
  | .settings => "struct ReservationConfig"
  | .template => "struct AssetTemplate"

/-- How a plain value is shown that stands in the place of a group: in full, and a whole
floating-point number with a fraction. -/
def groupLayout : Layout := ⟨none, true, .greater⟩

/-- The words for a plain value in the place of a group. -/
def scalarWords : Toml.Scalar → String
  | .boolean b => "boolean `" ++ booleanText b ++ "`"
  | .integer n => "integer `" ++ Numeral.integerText n ++ "`"
  | .float x => "floating point `" ++ groupLayout.text x ++ "`"
  | .text s => "string " ++ Text.quoted s

def mismatch (found expected : String) : String :=
  "invalid type: " ++ found ++ ", expected " ++ expected

def Fault.message : Fault → String
  | .badSyntax => "TOML parse error"
  | .otherFormat => "file in another format than TOML"
  | .wrongKind found expected origin =>
    mismatch found.words expected.words ++ " for key `" ++ groupKey ++ "`" ++
      match origin with
      | some o => " in " ++ o
      | none => ""
  | .wrongGroup (some found) expected => mismatch (scalarWords found) expected.words
  | .wrongGroup none expected => mismatch nothingWords expected.words
  | .badAddress => Notation.faultMessage
  | .outOfRange => "index out of range"

end Settings
end NetPool
