import NetPool.Json.Number

/-! # Skipped JSON values

The value of an unknown key is passed over. Its syntax is checked, but neither the pairing of
surrogates, nor the size of numbers, nor the depth of nesting. -/

namespace NetPool.Json

/-- Blanks between the parts of a JSON text. -/
def isGap (c : Char) : Bool := c = ' ' || c = '\n' || c = '\t' || c = '\r'

/-- What encloses a skipped value. -/
inductive Frame where
  | list
  | object
  deriving DecidableEq

/-- The part of a number that was passed last. -/
inductive NumberPart where
  | sign
  | zero
  | whole
  | point
  | fraction
  | letter
  | letterSign
  | exponent
  deriving DecidableEq

/-- Where skipping stands. -/
inductive SkipState where
  /-- A value is due. -/
  | value
  /-- A list or an object was opened. -/
  | opened
  /-- A value has ended within a list or an object. -/
  | ended
  /-- A key is due. -/
  | key
  /-- The colon after a key is due. -/
  | colon
  /-- Within a word; the characters are due. -/
  | word (due : List Char)
  | number (part : NumberPart)
  /-- Within a string, which is a key or a value. -/
  | text (isKey : Bool)
  | textEscape (isKey : Bool)
  | textDigits (isKey : Bool) (due : Nat)
  deriving DecidableEq

/-- What one character does. -/
inductive SkipStep where
  /-- Skipping goes on after the character. -/
  | next (state : SkipState) (stack : List Frame)
  /-- The value ended with this character. -/
  | last
  /-- The value ended before this character. -/
  | before
  | fault (e : Fault)

def NumberPart.isComplete : NumberPart → Bool
  | .zero | .whole | .fraction | .exponent => true
  | .sign | .point | .letter | .letterSign => false

/-- The part that `c` leads to, or `none` if it does not belong to the number. -/
def NumberPart.step? (p : NumberPart) (c : Char) : Option NumberPart :=
  let digit := Numeral.isDigit 10 c
  match p with
  | .sign => if c = '0' then some .zero else if digit then some .whole else none
  | .zero => if c = '.' then some .point else if c = 'e' ∨ c = 'E' then some .letter else none
  | .whole =>
    if digit then some .whole else if c = '.' then some .point
    else if c = 'e' ∨ c = 'E' then some .letter else none
  | .point => if digit then some .fraction else none
  | .fraction =>
    if digit then some .fraction else if c = 'e' ∨ c = 'E' then some .letter else none
  | .letter =>
    if c = '+' ∨ c = '-' then some .letterSign else if digit then some .exponent else none
  | .letterSign => if digit then some .exponent else none
  | .exponent => if digit then some .exponent else none

/-- After a value that ended with this character. -/
def SkipStep.closed : List Frame → SkipStep
  | [] => .last
  | stack => .next .ended stack

def valueStep (stack : List Frame) (c : Char) : SkipStep :=
  if isGap c then .next .value stack
  else if c = 'n' then .next (.word ['u', 'l', 'l']) stack
  else if c = 't' then .next (.word ['r', 'u', 'e']) stack
  else if c = 'f' then .next (.word ['a', 'l', 's', 'e']) stack
  else if c = '-' then .next (.number .sign) stack
  else if c = '0' then .next (.number .zero) stack
  else if Numeral.isDigit 10 c then .next (.number .whole) stack
  else if c = '"' then .next (.text false) stack
  else if c = '[' then .next .opened (.list :: stack)
  else if c = '{' then .next .opened (.object :: stack)
  else .fault .valueExpected

def keyStep (stack : List Frame) (c : Char) : SkipStep :=
  if isGap c then .next .key stack
  else if c = '"' then .next (.text true) stack
  else .fault .keyExpected

/-- A character after a value within `frame`. -/
def endedStep (frame : Frame) (stack : List Frame) (c : Char) : SkipStep :=
  if isGap c then .next .ended (frame :: stack)
  else
    match frame with
    | .list =>
      if c = ',' then .next .value (frame :: stack)
      else if c = ']' then .closed stack
      else .fault .commaOrBracketExpected
    | .object =>
      if c = ',' then .next .key (frame :: stack)
      else if c = '}' then .closed stack
      else .fault .commaOrBraceExpected

def openedStep (frame : Frame) (stack : List Frame) (c : Char) : SkipStep :=
  if isGap c then .next .opened (frame :: stack)
  else
    match frame with
    | .list => if c = ']' then .closed stack else valueStep (frame :: stack) c
    | .object => if c = '}' then .closed stack else keyStep (frame :: stack) c

/-- A character that follows a complete number. -/
def afterNumber (stack : List Frame) (c : Char) : SkipStep :=
  match stack with
  | [] => .before
  | frame :: stack => endedStep frame stack c

/-- What one character does. The rest of the text decides whether an escape has its digits. -/
def skipStep (state : SkipState) (stack : List Frame) (c : Char) (rest : List Char) : SkipStep :=
  match state with
  | .value => valueStep stack c
  | .opened =>
    match stack with
    | [] => .last
    | frame :: stack => openedStep frame stack c
  | .ended =>
    match stack with
    | [] => .before
    | frame :: stack => endedStep frame stack c
  | .key => keyStep stack c
  | .colon =>
    if isGap c then .next .colon stack
    else if c = ':' then .next .value stack
    else .fault .colonExpected
  | .word due =>
    match due with
    | [] => .fault .wordExpected
    | d :: ds =>
      if c ≠ d then .fault .wordExpected
      else if ds.isEmpty then .closed stack
      else .next (.word ds) stack
  | .number part =>
    match part.step? c with
    | some next => .next (.number next) stack
    | none =>
      if !part.isComplete ∨ part = .zero ∧ Numeral.isDigit 10 c then .fault .badNumber
      else afterNumber stack c
  | .text isKey =>
    if c = '"' then if isKey then .next .colon stack else .closed stack
    else if c = '\\' then .next (.textEscape isKey) stack
    else if c.toNat < 32 then .fault .controlCharacter
    else .next (.text isKey) stack
  | .textEscape isKey =>
    if (letterEscape? c).isSome then .next (.text isKey) stack
    else if c = 'u' then
      if fourBytesLeft rest then .next (.textDigits isKey 4) stack else .fault .endOfText
    else .fault .badEscape
  | .textDigits isKey due =>
    if Numeral.isDigit 16 c then
      if due > 1 then .next (.textDigits isKey (due - 1)) stack else .next (.text isKey) stack
    else .fault .badEscape

def Frame.endFault : Frame → Fault
  | .list => .endOfList
  | .object => .endOfObject

def endFault? (state : SkipState) (stack : List Frame) : Option Fault :=
  match state with
  | .value | .word _ => some .endOfValue
  | .opened | .ended => stack.head?.map Frame.endFault
  | .key | .colon => some .endOfObject
  | .number part => if part.isComplete then stack.head?.map Frame.endFault else some .badNumber
  | .text _ | .textEscape _ | .textDigits .. => some .endOfText

/-- Passes over a value, or over the rest of it. -/
def skipFrom (state : SkipState) (stack : List Frame) : List Char → Except Fault (List Char)
  | [] =>
    match endFault? state stack with
    | some e => .error e
    | none => .ok []
  | c :: cs =>
    match skipStep state stack c cs with
    | .next state stack => skipFrom state stack cs
    | .last => .ok cs
    | .before => .ok (c :: cs)
    | .fault e => .error e

def skipValue (cs : List Char) : Except Fault (List Char) := skipFrom .value [] cs

end NetPool.Json
