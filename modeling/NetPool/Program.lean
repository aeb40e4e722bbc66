import NetPool.Error
import NetPool.Text.Blank
import NetPool.Text.Bytes

/-! # Programs

Starting a program gives what it wrote and how it ended, or the reason why it could not be
started. Answers that come from programs carry the arguments of those that were started. -/

namespace NetPool

/-- What a program that ran has left. One that was killed has no exit code. -/
structure Output where
  stdout : ByteArray
  stderr : ByteArray
  code : Option Nat

/-- What starting a program with some arguments gives. -/
abbrev Machine : Type := String → List String → Except IoError Output

/-- A result, with the arguments of the programs that were started for it. -/
structure Answer (α : Type) where
  calls : List (List String)
  result : Except Error α

namespace Answer

variable {α β : Type}

def ofResult (result : Except Error α) : Answer α := ⟨[], result⟩

/-- Goes on with the value of an answer, if it has one. -/
def andThen (a : Answer α) (f : α → Answer β) : Answer β :=
  match a.result with
  | .ok v => ⟨a.calls ++ (f v).calls, (f v).result⟩
  | .error e => ⟨a.calls, .error e⟩

/-- The answer with its failure, if it has one, made a value. -/
def attempt (a : Answer α) : Answer (Option α) :=
  ⟨a.calls, match a.result with | .ok v => .ok (some v) | .error _ => .ok none⟩

instance : Monad Answer where
  pure v := ofResult (.ok v)
  bind := andThen

end Answer

def outputText (bytes : ByteArray) : List Char := Text.decodeLossy bytes

def trimmedText (bytes : ByteArray) : String := String.ofList (Text.trim (outputText bytes))

end NetPool
