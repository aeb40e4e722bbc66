import NetPool.Json.Skip

/-! # JSON readers

A reader takes one value from the front of a text. Reading goes from left to right and the first
problem wins: a value of the wrong kind is reported before anything after it is looked at, and
an absent field where its record ends. -/

namespace NetPool.Json

/-- Takes one value from the front of a text. -/
abbrev Reader (α : Type) : Type := List Char → Result α

/-- The text without the gap in front. -/
def skipGap (cs : List Char) : List Char := cs.dropWhile isGap

/-- Drops a word of which the first character was read. -/
def readWord : List Char → List Char → Except Fault (List Char)
  | [], cs => .ok cs
  | _ :: _, [] => .error .endOfValue
  | d :: ds, c :: cs => if c = d then readWord ds cs else .error .wordExpected

/-- The fault of a value that is not of the expected kind. What of it can be read is. -/
def kindFault (expected : String) : List Char → Fault
  | [] => .endOfValue
  | c :: cs =>
    let wordFault (due : List Char) (found : Found) : Fault :=
      match readWord due cs with
      | .ok _ => .wrongKind found expected
      | .error e => e
    if c = 'n' then wordFault ['u', 'l', 'l'] .null
    else if c = 't' then wordFault ['r', 'u', 'e'] (.boolean true)
    else if c = 'f' then wordFault ['a', 'l', 's', 'e'] (.boolean false)
    else if c = '-' ∨ Numeral.isDigit 10 c then
      match readNumber (c :: cs) with
      | .ok (n, _) => .wrongKind n.found expected
      | .error e => e
    else if c = '"' then
      match readText .plain cs with
      | .ok (s, _) => .wrongKind (.text (String.ofList s)) expected
      | .error e => e
    else if c = '[' then .wrongKind .sequence expected
    else if c = '{' then .wrongKind .map expected
    else .valueExpected

/-- Reads a string; `expected` names what it is read for. -/
def readString (expected : String) : Reader String := fun cs =>
  match skipGap cs with
  | '"' :: rest => (readText .plain rest).map String.ofList
  | rest => .error (kindFault expected rest)

/-- Reads a string and what is written in it. -/
def readWritten {α : Type} (expected : String) (parse : String → Except Fault α) : Reader α :=
  fun cs =>
    match readString expected cs with
    | .error e => .error e
    | .ok (s, rest) =>
      match parse s with
      | .ok a => .ok (a, rest)
      | .error e => .error e

def readNatural (expected : String) (limit : Nat) : Reader Nat := fun cs =>
  match skipGap cs with
  | [] => .error .endOfValue
  | c :: rest =>
    if c = '-' ∨ Numeral.isDigit 10 c then
      match readNumber (c :: rest) with
      | .error e => .error e
      | .ok (.natural n, rest) =>
        if n < limit then .ok (n, rest) else .error (.wrongValue (.integer n) expected)
      | .ok (.negative n, _) => .error (.wrongValue (.integer (-n)) expected)
      | .ok (.float x, _) => .error (.wrongKind (.float x) expected)
    else .error (kindFault expected (c :: rest))

def readNullable {α : Type} (read : Reader α) : Reader (Option α) := fun cs =>
  match skipGap cs with
  | 'n' :: rest =>
    match readWord ['u', 'l', 'l'] rest with
    | .ok rest => .ok (none, rest)
    | .error e => .error e
  | rest => (read rest).map some

/-- Looks for the next item of a list: whether there is one, and the text from it on, or from
the closing bracket on. -/
def nextItem (isFirst : Bool) (cs : List Char) : Result Bool :=
  match skipGap cs with
  | [] => .error .endOfList
  | ']' :: rest => .ok (false, ']' :: rest)
  | c :: rest =>
    if isFirst then .ok (true, c :: rest)
    else if c = ',' then
      match skipGap rest with
      | [] => .error .endOfValue
      | ']' :: _ => .error .trailingComma
      | rest => .ok (true, rest)
    else .error .commaOrBracketExpected

def closeList (cs : List Char) : Except Fault (List Char) :=
  match skipGap cs with
  | [] => .error .endOfList
  | ']' :: rest => .ok rest
  | ',' :: rest =>
    match skipGap rest with
    | ']' :: _ => .error .trailingComma
    | _ => .error .trailingCharacters
  | _ => .error .trailingCharacters

/-- Reads the items of a list up to its closing bracket; `fuel` bounds their number. -/
def readItems {α : Type} (read : Reader α) : (fuel : Nat) → (isFirst : Bool) → Reader (List α)
  | 0, _, _ => .error .endOfList
  | fuel + 1, isFirst, cs =>
    match nextItem isFirst cs with
    | .error e => .error e
    | .ok (false, rest) => (closeList rest).map ([], ·)
    | .ok (true, rest) =>
      match read rest with
      | .error e => .error e
      | .ok (a, rest) => (readItems read fuel false rest).map (a :: ·)

/-- Reads a list. -/
def readList {α : Type} (read : Reader α) : Reader (List α) := fun cs =>
  match skipGap cs with
  | '[' :: rest => readItems read (rest.length + 1) true rest
  | rest => .error (kindFault "a sequence" rest)

/-! ## Records -/

/-- A field of a record of which the parts read so far are a `ρ`. -/
structure FieldReader (ρ : Type) where
  name : String
  required : Bool
  read : ρ → Reader ρ

/-- How a record is read: from an object with any order of keys, or from a list with the fields
in order. -/
structure RecordReader (ρ α : Type) where
  expected : String
  start : ρ
  fields : List (FieldReader ρ)
  /-- The record, or the name of the first required field that is absent. -/
  finish : ρ → Except String α

/-- Looks for the next key of an object: whether there is one, and the text after its opening
quote, or from the closing brace on. -/
def nextKey (isFirst : Bool) (cs : List Char) : Result Bool :=
  match skipGap cs with
  | [] => .error .endOfObject
  | '}' :: rest => .ok (false, '}' :: rest)
  | c :: rest =>
    if isFirst then if c = '"' then .ok (true, rest) else .error .keyExpected
    else if c = ',' then
      match skipGap rest with
      | [] => .error .endOfValue
      | '"' :: rest => .ok (true, rest)
      | '}' :: _ => .error .trailingComma
      | _ => .error .keyExpected
    else .error .commaOrBraceExpected

def readColon (cs : List Char) : Except Fault (List Char) :=
  match skipGap cs with
  | [] => .error .endOfObject
  | ':' :: rest => .ok rest
  | _ => .error .colonExpected

namespace RecordReader

variable {ρ α : Type}

def readMember (r : RecordReader ρ α) (seen : List String) (parts : ρ) (key : String)
    (cs : List Char) : Result ρ :=
  match r.fields.find? (·.name = key) with
  | none =>
    match readColon cs with
    | .error e => .error e
    | .ok rest => (skipValue rest).map (parts, ·)
  | some field =>
    if key ∈ seen then .error (.duplicateField key)
    else
      match readColon cs with
      | .error e => .error e
      | .ok rest => field.read parts rest

/-- Reads the members of an object up to its closing brace; `fuel` bounds their number. -/
def readMembers (r : RecordReader ρ α) :
    (fuel : Nat) → (isFirst : Bool) → List String → ρ → List Char → Result ρ
  | 0, _, _, _, _ => .error .endOfObject
  | fuel + 1, isFirst, seen, parts, cs =>
    match nextKey isFirst cs with
    | .error e => .error e
    | .ok (false, rest) => .ok (parts, rest)
    | .ok (true, rest) =>
      match readText .plain rest with
      | .error e => .error e
      | .ok (key, rest) =>
        match r.readMember seen parts (String.ofList key) rest with
        | .error e => .error e
        | .ok (parts, rest) => r.readMembers fuel false (String.ofList key :: seen) parts rest

/-- Reads the fields of a list in order. Trailing fields may be absent unless required. -/
def readPlaces (r : RecordReader ρ α) (index : Nat) :
    List (FieldReader ρ) → ρ → List Char → Result ρ
  | [], parts, cs => .ok (parts, cs)
  | field :: fields, parts, cs =>
    match nextItem (index = 0) cs with
    | .error e => .error e
    | .ok (false, rest) =>
      if field.required then
        .error (.wrongLength index (r.expected ++ " with " ++ Numeral.text r.fields.length ++
          " elements"))
      else r.readPlaces (index + 1) fields parts rest
    | .ok (true, rest) =>
      match field.read parts rest with
      | .error e => .error e
      | .ok (parts, rest) => r.readPlaces (index + 1) fields parts rest

/-- The finished record; a required field that is absent is a fault. -/
def close (r : RecordReader ρ α) (parts : ρ) : Except Fault α :=
  (r.finish parts).mapError .missingField

def read (r : RecordReader ρ α) : Reader α := fun cs =>
  match skipGap cs with
  | '{' :: rest =>
    match r.readMembers (rest.length + 1) true [] r.start rest with
    | .error e => .error e
    | .ok (parts, rest) => (r.close parts).map (·, rest.drop 1)
  | '[' :: rest =>
    match r.readPlaces 0 r.fields r.start rest with
    | .error e => .error e
    | .ok (parts, rest) =>
      match r.close parts with
      | .error e => .error e
      | .ok a => (closeList rest).map (a, ·)
  | rest => .error (kindFault r.expected rest)

end RecordReader

/-- Reads a whole text as one value with gaps around it. -/
def parse {α : Type} (read : Reader α) (cs : List Char) : Except Fault α :=
  match read cs with
  | .error e => .error e
  | .ok (a, rest) => if (skipGap rest).isEmpty then .ok a else .error .trailingCharacters

end NetPool.Json
