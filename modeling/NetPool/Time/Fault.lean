import NetPool.Time.Instant

/-! # What is wrong with a written instant -/

namespace NetPool

/-- What is wrong with a written instant. -/
inductive Instant.Fault where
  | tooShort
  | badCharacters
  | outOfRange
  | trailingText
  | noSuchTime
  deriving DecidableEq, Repr

def Instant.Fault.message : Instant.Fault → String
  | .tooShort => "premature end of input"
  | .badCharacters => "input contains invalid characters"
  | .outOfRange => "input is out of range"
  | .trailingText => "trailing input"
  | .noSuchTime => "no possible date and time matching input"

end NetPool
