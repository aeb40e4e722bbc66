import NetPool.Text.Numeral

/-! # Paths of keys

A key may spell the way to a setting: a name, and then names after points and indices in
brackets. -/

namespace NetPool

namespace Settings

/-- The lower case of a character, as far as keys can show it. The sign of the kelvin is a second
capital of `k`. -/
def lowerChar (c : Char) : Char := if c = '\u212a' then 'k' else c.toLower

def lower (cs : List Char) : List Char := cs.map lowerChar

inductive Step where
  /-- To what a table has under a name. -/
  | name (name : String)
  /-- To a place of a list; a negative index counts from its end. -/
  | index (i : Int)
  deriving DecidableEq, Repr

def isPathChar (c : Char) : Bool := c.isAlphanum || c = '_' || c = '-' || c = ' '

def nameStep? (cs : List Char) : Option Step :=
  if !cs.isEmpty && cs.all isPathChar then some (.name (String.ofList (lower cs))) else none

def isIndexBlank (c : Char) : Bool := c = ' ' || c = '\t'

/-- The digits of an index, if only blanks and the closing bracket follow them. -/
def indexDigits? (cs : List Char) : Option (List Char) :=
  if (cs.dropWhile (Numeral.isDigit 10)).dropWhile isIndexBlank = [']'] then
    some (cs.takeWhile (Numeral.isDigit 10))
  else none

/-- The step by the index that a text up to the closing bracket writes. -/
def indexStep? (cs : List Char) : Option Step := do
  let (negative, cs) :=
    match cs.dropWhile isIndexBlank with
    | '-' :: cs => (true, cs)
    | cs => (false, cs)
  let n ← Numeral.natural? (← indexDigits? cs)
  return .index (← Numeral.signed? negative n)

/-- The step that a part of a path spells, which begins with its sign. -/
def step? : List Char → Option Step
  | '.' :: cs => nameStep? cs
  | '[' :: cs => indexStep? cs
  | _ => none

def isStepSign (c : Char) : Bool := c = '.' || c = '['

/-- The text up to the first sign of a step, and the parts that begin with such signs. -/
def splitSteps : List Char → List Char × List (List Char)
  | [] => ([], [])
  | c :: cs =>
    let (front, parts) := splitSteps cs
    if isStepSign c then ([], (c :: front) :: parts) else (c :: front, parts)

/-- The path that a key spells. A key that spells none is one name. -/
def keyPath (key : List Char) : List Step :=
  let (front, parts) := splitSteps key
  match nameStep? front, parts.mapM step? with
  | some first, some steps => first :: steps
  | _, _ => [.name (String.ofList (lower key))]

end Settings
end NetPool
