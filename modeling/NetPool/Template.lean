import NetPool.Asset
import NetPool.Net.Notation
import NetPool.Text.Quoted

/-! # Templates

A template says where each search starts. As configured, every field may be absent; a checked
template has all six, and stems that make legal interface names. -/

namespace NetPool

def maxNameBytes : Nat := 15

def isNameChar (c : Char) : Bool := c.isAlphanum || c = '-' || c = '_'

inductive StemFlaw where
  | empty
  | tooLong
  | badCharacters (text : String)
  deriving DecidableEq, Repr

/-- What is wrong with a template. -/
inductive TemplateError where
  | missing (field : Field)
  | invalid (field : Field) (flaw : StemFlaw)
  deriving DecidableEq, Repr

def StemFlaw.message : StemFlaw → String
  | .empty => "bridge prefix is empty"
  | .tooLong => "bridge prefix must be shorter than " ++ Numeral.text maxNameBytes ++ " characters"
  | .badCharacters text => "bridge prefix " ++ Text.quoted text ++ " contains invalid characters"

def TemplateError.message : TemplateError → String
  | .missing field => "Template field `" ++ field.name ++ "` is missing"
  | .invalid field flaw => "Template field `" ++ field.name ++ "` is invalid: " ++ flaw.message

/-- The text that numbered bridge names start with. One digit still fits after it. -/
structure Stem where
  text : String
  nonempty : 0 < text.utf8ByteSize
  short : text.utf8ByteSize < maxNameBytes
  legal : text.toList.all isNameChar = true
  deriving DecidableEq

/-- The stem with that text, or the first thing that is wrong with it. -/
def Stem.check (text : String) : Except StemFlaw Stem :=
  if h₁ : 0 < text.utf8ByteSize then
    if h₂ : text.utf8ByteSize < maxNameBytes then
      if h₃ : text.toList.all isNameChar = true then .ok ⟨text, h₁, h₂, h₃⟩
      else .error (.badCharacters text)
    else .error .tooLong
  else .error .empty

/-- Where the searches start, as configured. -/
structure Template where
  machineCidr : Option (Subnet .v4)
  machineCidr6 : Option (Subnet .v6)
  provisioningCidr : Option (Subnet .v4)
  provisioningCidr6 : Option (Subnet .v6)
  networkIf : Option String
  secondaryNetworkIf : Option String
  deriving DecidableEq

def Template.standard : Template where
  machineCidr := Subnet.ofText? .v4 "192.168.127.0/24"
  machineCidr6 := Subnet.ofText? .v6 "1001:db8::/120"
  provisioningCidr := Subnet.ofText? .v4 "192.168.145.0/24"
  provisioningCidr6 := Subnet.ofText? .v6 "3001:db8::/120"
  networkIf := some "test"
  secondaryNetworkIf := some "stest"

def Template.blank : Template := ⟨none, none, none, none, none, none⟩

/-- A template with every field present and usable. -/
structure CheckedTemplate where
  machineCidr : Subnet .v4
  machineCidr6 : Subnet .v6
  provisioningCidr : Subnet .v4
  provisioningCidr6 : Subnet .v6
  networkIf : Stem
  secondaryNetworkIf : Stem
  deriving DecidableEq

namespace Template

/-- The value of a field that must be present. -/
def require {α : Type} (field : Field) : Option α → Except TemplateError α
  | some a => .ok a
  | none => .error (.missing field)

/-- The stem in a field, which must be present and legal. -/
def requireStem (field : Field) (value : Option String) : Except TemplateError Stem := do
  let text ← require field value
  (Stem.check text).mapError (.invalid field)

/-- Checks the fields in order; the first that is absent or illegal is reported. -/
def check (t : Template) : Except TemplateError CheckedTemplate := do
  let machineCidr ← require .machineCidr t.machineCidr
  let machineCidr6 ← require .machineCidr6 t.machineCidr6
  let provisioningCidr ← require .provisioningCidr t.provisioningCidr
  let provisioningCidr6 ← require .provisioningCidr6 t.provisioningCidr6
  let networkIf ← requireStem .networkIf t.networkIf
  let secondaryNetworkIf ← requireStem .secondaryNetworkIf t.secondaryNetworkIf
  return ⟨machineCidr, machineCidr6, provisioningCidr, provisioningCidr6, networkIf,
    secondaryNetworkIf⟩

end Template
end NetPool
