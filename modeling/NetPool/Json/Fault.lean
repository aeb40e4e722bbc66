import NetPool.Decimal.Layout
import NetPool.Net.Notation
import NetPool.Text.Quoted
import NetPool.Time.Fault

/-! # What is wrong with a JSON text -/

namespace NetPool.Json

/-- A value of the wrong kind, as messages describe it. -/
inductive Found where
  | null
  | boolean (b : Bool)
  | integer (n : Int)
  | float (x : Binary64)
  | text (s : String)
  | sequence
  | map
  deriving DecidableEq

/-- The words for a value that was found. -/
def Found.words : Found → String
  | .null => "null"
  | .boolean b => "boolean `" ++ (if b then "true" else "false") ++ "`"
  | .integer n => "integer `" ++ Numeral.integerText n ++ "`"
  | .float x => "floating point `" ++ Layout.marked.text x ++ "`"
  | .text s => "string " ++ Text.quoted s
  | .sequence => "sequence"
  | .map => "map"

/-- What is wrong with a JSON text. -/
inductive Fault where
  | endOfValue
  | endOfList
  | endOfObject
  | endOfText
  | valueExpected
  | wordExpected
  | colonExpected
  | commaOrBraceExpected
  | commaOrBracketExpected
  | trailingComma
  | trailingCharacters
  | keyExpected
  | badNumber
  | numberOutOfRange
  | badEscape
  | controlCharacter
  | loneSurrogate
  | endOfSurrogate
  | missingField (name : String)
  | duplicateField (name : String)
  | wrongKind (found : Found) (expected : String)
  | wrongValue (found : Found) (expected : String)
  | wrongLength (length : Nat) (expected : String)
  | badAddress
  | badInstant (fault : Instant.Fault)
  deriving DecidableEq

def Fault.message : Fault → String
  | .endOfValue => "EOF while parsing a value"
  | .endOfList => "EOF while parsing a list"
  | .endOfObject => "EOF while parsing an object"
  | .endOfText => "EOF while parsing a string"
  | .valueExpected => "expected value"
  | .wordExpected => "expected ident"
  | .colonExpected => "expected `:`"
  | .commaOrBraceExpected => "expected `,` or `\x7d`"
  | .commaOrBracketExpected => "expected `,` or `]`"
  | .trailingComma => "trailing comma"
  | .trailingCharacters => "trailing characters"
  | .keyExpected => "key must be a string"
  | .badNumber => "invalid number"
  | .numberOutOfRange => "number out of range"
  | .badEscape => "invalid escape"
  | .controlCharacter => "control character (\\u0000-\\u001F) found while parsing a string"
  | .loneSurrogate => "lone leading surrogate in hex escape"
  | .endOfSurrogate => "unexpected end of hex escape"
  | .missingField name => "missing field `" ++ name ++ "`"
  | .duplicateField name => "duplicate field `" ++ name ++ "`"
  | .wrongKind found expected => "invalid type: " ++ found.words ++ ", expected " ++ expected
  | .wrongValue found expected => "invalid value: " ++ found.words ++ ", expected " ++ expected
  | .wrongLength length expected =>
    "invalid length " ++ Numeral.text length ++ ", expected " ++ expected
  | .badAddress => Notation.faultMessage
  | .badInstant fault => fault.message

end NetPool.Json
