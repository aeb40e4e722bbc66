import NetPool.Text.Numeral

/-! # TOML strings

A string stands between double quotes, with escapes, or between single quotes, without them. In
a long string, between three quotes on either side, lines may end. -/

namespace NetPool.Toml

/-- Reads a part of a text from its front; `none` if the part is not there. -/
abbrev Reader (α : Type) : Type := StateT (List Char) Option α

def isBlank (c : Char) : Bool := c = ' ' || c = '\t'

/-- Whether the character may stand in a line: no control character but the tab. -/
def isPlain (c : Char) : Bool := c = '\t' || 32 ≤ c.toNat && c.toNat ≠ 127

/-- How a string is written. -/
structure Quotation where
  quote : Char
  escapes : Bool
  long : Bool
  deriving DecidableEq

inductive TextState where
  /-- In plain text, or at the start of a line after an escaped line end. -/
  | plain (afterEscapedEnd : Bool)
  /-- After a backslash. -/
  | escape
  /-- Within the number of a character, `due` of its digits left. -/
  | digits (due value : Nat)
  deriving DecidableEq

def letterEscape? (c : Char) : Option Char :=
  match c with
  | '"' => some '"'
  | '\\' => some '\\'
  | 'b' => some '\x08'
  | 'f' => some '\x0c'
  | 'n' => some '\n'
  | 'r' => some '\r'
  | 't' => some '\t'
  | _ => none

def escapeDigits? (c : Char) : Option Nat :=
  if c = 'u' then some 4 else if c = 'U' then some 8 else none

/-- Whether nothing but blanks stand before the end of the line. -/
def endsLine (cs : List Char) : Bool := (cs.dropWhile isBlank).head? = some '\n'

/-- The text and what follows it, with `c` before the text. -/
def withChar (c : Char) (r : Option (List Char × List Char)) : Option (List Char × List Char) :=
  r.map fun (text, rest) => (c :: text, rest)

/-- Reads the rest of a string after its opening quotes. Up to two quotes may stand before the
closing ones of a long string. -/
def readText (q : Quotation) : TextState → List Char → Option (List Char × List Char)
  | _, [] => none
  | .plain folding, c :: cs =>
    if folding && (isBlank c || c = '\n') then readText q (.plain true) cs
    else if c = q.quote then
      if !q.long then some ([], cs)
      else
        -- Three quotes in a row close the string. Of a longer run, the last three do.
        let run := (cs.takeWhile (· = q.quote)).length + 1
        if run = 3 then some ([], cs.drop 2)
        else if run > 5 then none
        else withChar c (readText q (.plain false) cs)
    else if c = '\\' && q.escapes then
      readText q (if q.long && endsLine cs then .plain true else .escape) cs
    else if isPlain c || q.long && c = '\n' then withChar c (readText q (.plain false) cs)
    else none
  | .escape, c :: cs =>
    match letterEscape? c, escapeDigits? c with
    | some d, _ => withChar d (readText q (.plain false) cs)
    | none, some due => readText q (.digits due 0) cs
    | none, none => none
  | .digits due value, c :: cs =>
    match Numeral.digitValue? c with
    | none => none
    | some d =>
      let n := value * 16 + d
      if due > 1 then readText q (.digits (due - 1) n) cs
      else if n.isValidChar then withChar (Char.ofNat n) (readText q (.plain false) cs)
      else none

def textAfter (q : Quotation) : Reader String := fun cs =>
  (readText q (.plain false) cs).map fun (text, rest) => (String.ofList text, rest)

/-- Reads a string between single copies of its quote. -/
def shortText : Reader String := fun cs =>
  match cs with
  | '"' :: rest => textAfter ⟨'"', true, false⟩ rest
  | '\'' :: rest => textAfter ⟨'\'', false, false⟩ rest
  | _ => none

/-- The text without the end of a line in front. -/
def dropLineEnd : List Char → List Char
  | '\n' :: cs => cs
  | cs => cs

/-- Reads a string between three quotes on either side. A line end right after the opening
quotes is not part of it. -/
def longText : Reader String := fun cs =>
  match cs with
  | '"' :: '"' :: '"' :: rest => textAfter ⟨'"', true, true⟩ (dropLineEnd rest)
  | '\'' :: '\'' :: '\'' :: rest => textAfter ⟨'\'', false, true⟩ (dropLineEnd rest)
  | _ => none

end NetPool.Toml
