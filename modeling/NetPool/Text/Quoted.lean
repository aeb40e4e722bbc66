import NetPool.Text.Numeral
import NetPool.Text.Unprintable

/-! # Quoted texts

How messages show a text: in double quotes, with every character that would not be seen
spelled out. -/

namespace NetPool.Text

/-- One character of a quoted text. The single quote stands for itself. -/
def quotedChar (c : Char) : List Char :=
  if c = '"' then ['\\', '"']
  else if c = '\\' then ['\\', '\\']
  else if c = '\n' then ['\\', 'n']
  else if c = '\r' then ['\\', 'r']
  else if c = '\t' then ['\\', 't']
  else if c.toNat = 0 then ['\\', '0']
  else if isUnprintable c then ['\\', 'u', '\x7b'] ++ Numeral.hex c.toNat ++ ['\x7d']
  else [c]

def quoted (s : String) : String :=
  String.ofList ('"' :: s.toList.flatMap quotedChar ++ ['"'])

end NetPool.Text
