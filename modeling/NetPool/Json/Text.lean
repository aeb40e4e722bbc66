import NetPool.Json.Fault

/-! # JSON strings

A string is read one character at a time. Between characters the reader is in plain text, within
an escape, or between the two halves of a surrogate pair. -/

namespace NetPool.Json

/-- What reading a part of a text gives: a value and the characters left, or a fault. -/
abbrev Result (α : Type) : Type := Except Fault (α × List Char)

def Result.map {α β : Type} (f : α → β) : Result α → Result β
  | .ok (a, rest) => .ok (f a, rest)
  | .error e => .error e

def letterEscape? (c : Char) : Option Char :=
  match c with
  | '"' => some '"'
  | '\\' => some '\\'
  | '/' => some '/'
  | 'b' => some '\x08'
  | 'f' => some '\x0c'
  | 'n' => some '\n'
  | 'r' => some '\r'
  | 't' => some '\t'
  | _ => none

/-- Whether four bytes are left, which the digits of an escape need. -/
def fourBytesLeft (cs : List Char) : Bool := (String.ofList (cs.take 4)).utf8ByteSize ≥ 4

/-- Where the reader of a string stands. -/
inductive TextState where
  /-- In plain text. -/
  | plain
  /-- After a backslash. -/
  | escape
  /-- Within a number of four digits, `due` of them left, after a high surrogate or not. -/
  | digits (due value : Nat) (high : Option Nat)
  /-- After a high surrogate. -/
  | high (h : Nat)
  /-- After a high surrogate and a backslash. -/
  | highEscape (h : Nat)
  deriving DecidableEq

/-- What a finished number of four digits means: a character, or the first half of one. -/
inductive Unit16 where
  | char (c : Char)
  | half (h : Nat)
  | lone

/-- The meaning of the sixteen-bit unit `n`, after the high surrogate `high` if there was one. -/
def Unit16.of (n : Nat) : Option Nat → Unit16
  | none =>
    if 0xdc00 ≤ n ∧ n ≤ 0xdfff then .lone
    else if 0xd800 ≤ n ∧ n ≤ 0xdbff then .half n
    else .char (Char.ofNat n)
  | some h =>
    if 0xdc00 ≤ n ∧ n ≤ 0xdfff then
      .char (Char.ofNat ((h - 0xd800) * 0x400 + (n - 0xdc00) + 0x10000))
    else .lone

def readText : TextState → List Char → Result (List Char)
  | _, [] => .error .endOfText
  | .plain, c :: cs =>
    if c = '"' then .ok ([], cs)
    else if c = '\\' then readText .escape cs
    else if c.toNat < 32 then .error .controlCharacter
    else (readText .plain cs).map (c :: ·)
  | .escape, c :: cs =>
    match letterEscape? c with
    | some d => (readText .plain cs).map (d :: ·)
    | none =>
      if c = 'u' then
        if fourBytesLeft cs then readText (.digits 4 0 none) cs else .error .endOfText
      else .error .badEscape
  | .digits due value high, c :: cs =>
    if Numeral.isDigit 16 c then
      let n := value * 16 + (Numeral.digitValue? c).getD 0
      if due > 1 then readText (.digits (due - 1) n high) cs
      else
        match Unit16.of n high with
        | .char d => (readText .plain cs).map (d :: ·)
        | .half h => readText (.high h) cs
        | .lone => .error .loneSurrogate
    else .error .badEscape
  | .high h, c :: cs =>
    if c = '\\' then readText (.highEscape h) cs else .error .endOfSurrogate
  | .highEscape h, c :: cs =>
    if c = 'u' then
      if fourBytesLeft cs then readText (.digits 4 0 (some h)) cs else .error .endOfText
    else .error .endOfSurrogate

/-- The escape of a character in a written string, if it needs one. -/
def escape? (c : Char) : Option (List Char) :=
  if c = '"' then some ['\\', '"']
  else if c = '\\' then some ['\\', '\\']
  else if c = '\x08' then some ['\\', 'b']
  else if c = '\x0c' then some ['\\', 'f']
  else if c = '\n' then some ['\\', 'n']
  else if c = '\r' then some ['\\', 'r']
  else if c = '\t' then some ['\\', 't']
  else if c.toNat < 32 then some (['\\', 'u'] ++ Numeral.padded 4 (Numeral.hex c.toNat))
  else none

def writtenChar (c : Char) : List Char := (escape? c).getD [c]

def writeText (s : List Char) : List Char := '"' :: s.flatMap writtenChar ++ ['"']

end NetPool.Json
