import NetPool.Decimal.Binary64
import NetPool.Text.Numeral

/-! # TOML values

What a settings file can say. A table remembers how it was begun, because that decides whether
it may be extended later in the file. -/

namespace NetPool.Toml

/-- A value without parts. Dates and times are kept as texts. -/
inductive Scalar where
  | boolean (b : Bool)
  | integer (n : Int)
  | float (x : Binary64)
  | text (s : String)
  deriving DecidableEq

/-- How a table was begun. -/
inductive TableForm where
  /-- By the header of a table within it. -/
  | implied
  /-- By a key with points. -/
  | dotted
  /-- By its own header. -/
  | headed
  /-- As a value between braces, which is complete. -/
  | inline
  deriving DecidableEq

inductive Value where
  | scalar (s : Scalar)
  | list (items : List Value)
  | table (form : TableForm) (entries : List (String × Value))
  /-- Tables of one name, each with its own header. -/
  | tables (elements : List (List (String × Value)))

/-- The entries of a table: distinct keys with their values. -/
abbrev Entries : Type := List (String × Value)

/-- The integer with that sign and absolute value, if it has 64 bits. -/
def Scalar.integer? (negative : Bool) (n : Nat) : Option Scalar :=
  (Numeral.signed? negative n).map .integer

end NetPool.Toml
