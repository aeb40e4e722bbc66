import NetPool.Toml.Moment
import NetPool.Toml.Table

/-! # TOML documents

A document is a sequence of lines with assignments and headers. Within the brackets of a list,
lines may end anywhere between its parts. -/

namespace NetPool.Toml

/-! ## Gaps -/

def blanks : Reader Unit := fun cs => some ((), cs.dropWhile isBlank)

/-- Drops a comment, if there is one, up to the end of its line. -/
def comment : Reader Unit := fun cs =>
  match cs with
  | '#' :: rest => some ((), rest.dropWhile isPlain)
  | _ => some ((), cs)

/-- Drops the blanks, the comment and the end of a line; the text may end instead. -/
def restOfLine : Reader Unit := do
  blanks
  comment
  fun cs =>
    match cs with
    | [] => some ((), [])
    | '\n' :: rest => some ((), rest)
    | _ => none

/-- Drops blanks, comments and line ends; `inComment` says that a comment has begun. A comment
may hold no control character. -/
def dropGap : (inComment : Bool) → List Char → Option (List Char)
  | false, [] => some []
  | true, [] => none
  | inComment, c :: cs =>
    if c = '\n' then dropGap false cs
    else if inComment then if isPlain c then dropGap true cs else none
    else if isBlank c then dropGap false cs
    else if c = '#' then dropGap true cs
    else some (c :: cs)

def gap : Reader Unit := fun cs => (dropGap false cs).map ((), ·)

/-! ## Keys -/

def isBareKeyChar (c : Char) : Bool := c.isAlphanum || c = '-' || c = '_'

def bareKey : Reader String := fun cs =>
  let key := cs.takeWhile isBareKeyChar
  if key.isEmpty then none else some (String.ofList key, cs.dropWhile isBareKeyChar)

/-- Reads one part of a key with the blanks around it. -/
def keyPart : Reader String := do
  blanks
  let part ← shortText <|> bareKey
  blanks
  return part

/-- Reads the parts of a key that follow the first one; `fuel` bounds their number. -/
def keyParts : (fuel : Nat) → Reader (List String)
  | 0 => failure
  | fuel + 1 => fun cs =>
    match cs with
    | '.' :: rest => StateT.run (do return (← keyPart) :: (← keyParts fuel)) rest
    | _ => some ([], cs)

/-- The most parts of a key, and the most brackets around a value. -/
def depthLimit : Nat := 79

/-- Reads a key: its parts before the last one, and the last one. -/
def key : Reader (List String × String) := do
  let first ← keyPart
  let parts := first :: (← keyParts depthLimit)
  match parts.getLast? with
  | some last => return (parts.dropLast, last)
  | none => failure

/-! ## Values -/

/-- Reads items up to the closing bracket; `fuel` bounds their number. A comma may follow the
last one. -/
def listItems (item : Reader Value) : (fuel : Nat) → Reader (List Value)
  | 0 => failure
  | fuel + 1 => do
    gap
    match ← get with
    | ']' :: rest => do
      set rest
      return []
    | _ => do
      let v ← item
      gap
      match ← get with
      | ',' :: rest => do
        set rest
        return v :: (← listItems item fuel)
      | ']' :: rest => do
        set rest
        return [v]
      | _ => failure

def assignment (value : Reader Value) : Reader Assignment := do
  let (path, key) ← key
  expect '='
  blanks
  let v ← value
  blanks
  return ⟨path, key, v⟩

/-- Reads assignments up to the closing brace; `fuel` bounds their number. -/
def inlineAssignments (value : Reader Value) : (fuel : Nat) → Reader (List Assignment)
  | 0 => failure
  | fuel + 1 => do
    let a ← assignment value
    match ← get with
    | ',' :: rest => do
      set rest
      return a :: (← inlineAssignments value fuel)
    | '}' :: rest => do
      set rest
      return [a]
    | _ => failure

def inlineTable (value : Reader Value) : Reader Value := do
  blanks
  match ← get with
  | '}' :: rest => do
    set rest
    return .table .inline []
  | cs => do
    let as ← inlineAssignments value (cs.length + 1)
    let entries ← StateT.lift (Entries.assignAll [] as)
    return .table .inline entries

def scalar : Reader Scalar :=
  (do return .text (← longText <|> shortText)) <|>
  (do expectWord "true"; return .boolean true) <|>
  (do expectWord "false"; return .boolean false) <|> moment <|> number

/-- Reads a value with at most `depth` brackets around its parts. -/
def value : (depth : Nat) → Reader Value
  | 0 => do return .scalar (← scalar)
  | depth + 1 => fun cs =>
    match cs with
    | '[' :: rest => (listItems (value depth) (rest.length + 1) rest).map (Prod.map .list id)
    | '{' :: rest => inlineTable (value depth) rest
    | _ => (scalar cs).map (Prod.map .scalar id)

/-! ## Lines -/

/-- A line that is not empty. -/
inductive Line where
  | assignment (a : Assignment)
  | header (kind : HeaderKind) (path : List String) (key : String)

def header (kind : HeaderKind) : Reader Line := do
  let (path, key) ← key
  expect ']'
  if kind = .element then expect ']'
  restOfLine
  return .header kind path key

def line : Reader Line := fun cs =>
  match cs with
  | '[' :: '[' :: rest => header .element rest
  | '[' :: rest => header .table rest
  | _ => StateT.run (do
      let a ← assignment (value depthLimit)
      restOfLine
      return .assignment a) cs

/-- Reads the lines of a document; `fuel` bounds their number. -/
def lines : (fuel : Nat) → List Char → Option (List Line)
  | 0, _ => none
  | fuel + 1, cs =>
    match cs.dropWhile isBlank with
    | [] => some []
    | '\n' :: rest => lines fuel rest
    | '#' :: rest => do
      let ((), rest) ← restOfLine ('#' :: rest)
      lines fuel rest
    | rest => do
      let (l, rest) ← line rest
      return l :: (← lines fuel rest)

def arrange : List Line → List Assignment × List Section
  | [] => ([], [])
  | .assignment a :: ls => let (as, ss) := arrange ls; (a :: as, ss)
  | .header kind path key :: ls => let (as, ss) := arrange ls; ([], ⟨kind, path, key, as⟩ :: ss)

/-- The text with a single character at the end of each line. -/
def unifyLineEnds : List Char → List Char
  | '\r' :: '\n' :: cs => '\n' :: unifyLineEnds cs
  | c :: cs => c :: unifyLineEnds cs
  | [] => []

/-- The mark that may stand before a text. -/
def byteOrderMark : Char := '\ufeff'

def dropMark : List Char → List Char
  | c :: cs => if c = byteOrderMark then cs else c :: cs
  | [] => []

/-- The entries of a document, or `none` if it is not well formed. -/
def read? (s : String) : Option Entries := do
  let cs := unifyLineEnds (dropMark s.toList)
  let (as, ss) := arrange (← lines (cs.length + 1) cs)
  Entries.ofSections as ss

end NetPool.Toml
