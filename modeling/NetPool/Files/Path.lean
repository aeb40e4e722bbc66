/-! # Paths

A path is a list of names to follow from the root or from the working directory. Empty names and
names of one point change nothing and are dropped; how the text ends is kept, since a path that
ends in a slash or a point names a directory. -/

namespace NetPool

/-- How the text of a path ends. -/
inductive PathEnding where
  | plain
  | slash
  | point
  deriving DecidableEq, Repr

structure Path where
  absolute : Bool
  parts : List String
  ending : PathEnding
  deriving DecidableEq, Repr

namespace Path

/-- The parts of a text between slashes. -/
def splitSlashes : List Char → List (List Char)
  | [] => [[]]
  | c :: cs =>
    if c = '/' then [] :: splitSlashes cs
    else
      match splitSlashes cs with
      | [] => [[c]]
      | p :: ps => (c :: p) :: ps

def endingOf (parts : List (List Char)) : PathEnding :=
  match parts.getLast? with
  | some [] => .slash
  | some ['.'] => .point
  | _ => .plain

def ofText (s : String) : Path :=
  let parts := splitSlashes s.toList
  ⟨s.toList.head? = some '/',
    (parts.filter fun p => !(p = [] || p = ['.'])).map String.ofList, endingOf parts⟩

/-- The path without its last name, or `none` where there is no name. -/
def parent? (p : Path) : Option Path :=
  if p.parts.isEmpty then none else some ⟨p.absolute, p.parts.dropLast, .plain⟩

/-- The text of a path, without what its ending adds. -/
def text (p : Path) : String := (if p.absolute then "/" else "") ++ String.intercalate "/" p.parts

def hereName : String := "."

def upName : String := ".."

end Path
end NetPool
