import NetPool.Json.Text

/-! # JSON writing

Records of texts and numbers are written in one line or spread over several, with two blanks of
indentation for each level. -/

namespace NetPool.Json

/-- A value within a written record. -/
inductive Scalar where
  | text (s : String)
  | number (n : Nat)
  deriving DecidableEq

/-- A record to be written: its keys with their values, in order. -/
abbrev Members : Type := List (String × Scalar)

def Scalar.write : Scalar → List Char
  | .text s => writeText s.toList
  | .number n => Numeral.decimal n

def writeMember (colon : List Char) (m : String × Scalar) : List Char :=
  writeText m.1.toList ++ colon ++ m.2.write

def writeCompact (ms : Members) : List Char :=
  '{' :: List.intercalate [','] (ms.map (writeMember [':'])) ++ ['}']

/-- A line feed and the indentation of a level. -/
def newLine (level : Nat) : List Char := '\n' :: List.replicate (2 * level) ' '

/-- Written items between two brackets, one on a line. -/
def writeLines (level : Nat) (opening closing : Char) (items : List (List Char)) : List Char :=
  if items.isEmpty then [opening, closing]
  else
    opening :: newLine (level + 1) ++ List.intercalate (',' :: newLine (level + 1)) items ++
      newLine level ++ [closing]

/-- A record over several lines, at a level of indentation. -/
def writePretty (level : Nat) (ms : Members) : List Char :=
  writeLines level '{' '}' (ms.map (writeMember [':', ' ']))

def writePrettyList (records : List Members) : List Char :=
  writeLines 0 '[' ']' (records.map (writePretty 1))

end NetPool.Json
