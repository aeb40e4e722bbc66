/-! # Blanks, lines and words

Blanks are the characters with the white-space property. Lines end at a line feed or at a carriage
return with a line feed. -/

namespace NetPool.Text

def isBlank (c : Char) : Bool :=
  let n := c.toNat
  9 ≤ n && n ≤ 13 || n = 32 || n = 0x85 || n = 0xa0 || n = 0x1680 || 0x2000 ≤ n && n ≤ 0x200a ||
    n = 0x2028 || n = 0x2029 || n = 0x202f || n = 0x205f || n = 0x3000

def trimStart (cs : List Char) : List Char := cs.dropWhile isBlank

def trimEnd (cs : List Char) : List Char := (cs.reverse.dropWhile isBlank).reverse

def trim (cs : List Char) : List Char := trimEnd (trimStart cs)

def words : List Char → List (List Char)
  | [] => []
  | c :: cs =>
    if isBlank c then words cs
    else
      match cs with
      | [] => [[c]]
      | d :: _ =>
        if isBlank d then [c] :: words cs
        else
          match words cs with
          | [] => [[c]]
          | w :: ws => (c :: w) :: ws

/-- A line that a line feed ended, without a carriage return at its end. -/
def chopReturn (line : List Char) : List Char :=
  if line.getLast? = some '\r' then line.dropLast else line

/-- Splits at the line feeds: the ended lines and the text after the last line feed. -/
def splitLines : List Char → List (List Char) × List Char
  | [] => ([], [])
  | c :: cs =>
    let (ls, last) := splitLines cs
    if c = '\n' then ([] :: ls, last)
    else
      match ls with
      | [] => ([], c :: last)
      | l :: ls => ((c :: l) :: ls, last)

/-- The lines of a text. An empty last line is none. -/
def lines (cs : List Char) : List (List Char) :=
  let (ended, last) := splitLines cs
  ended.map chopReturn ++ if last.isEmpty then [] else [last]

end NetPool.Text
