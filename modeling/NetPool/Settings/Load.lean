import NetPool.Files.System
import NetPool.Settings.Record
import NetPool.Toml.Document

/-! # Loading settings

Settings come from a file, over which the variables of the environment are laid. A file that is
not there, or is no text, says nothing. -/

namespace NetPool

namespace Settings

def extension : String := "toml"

/-- The extensions of files in other formats that settings can be written in. -/
def otherExtensions : List String := ["json", "yaml", "yml", "ini", "ron", "json5"]

/-- What follows the last point of a name. A point in front does not count. -/
def extensionOf? (name : String) : Option String :=
  let ending := name.toList.reverse.takeWhile (· ≠ '.')
  if ending.length + 1 < name.length then some (String.ofList ending.reverse) else none

/-- The path with an extension added to its last name, if it has one. -/
def withExtension? (p : Path) (ext : String) : Option Path :=
  match p.parts.getLast? with
  | none => none
  | some name =>
    if name = Path.upName then none
    else some ⟨p.absolute, p.parts.dropLast ++ [name ++ "." ++ ext], .plain⟩

def content? (fs : FileSystem) (path : String) : Option ByteArray := (fs.read path).toOption

/-- The path of the settings file of a name: the file of that name itself, or else the one with
the extension added. A file of another kind stands in the way of the latter. -/
def file? (fs : FileSystem) (name : String) : Option Path :=
  let p := Path.ofText name
  match content? fs name with
  | some _ =>
    if (p.parts.getLast?.bind extensionOf?) = some extension then some ⟨p.absolute, p.parts, .plain⟩
    else none
  | none => withExtension? p extension

/-- Whether a file in another format is found under the name of the settings: the file of that name
itself, or one with an extension added. It may be taken in the place of the settings file. -/
def isInOtherFormat (fs : FileSystem) (name : String) : Bool :=
  let p := Path.ofText name
  match content? fs name with
  | some _ => (p.parts.getLast?.bind extensionOf?).any (otherExtensions.contains ·)
  | none => otherExtensions.any fun ext =>
    ((withExtension? p ext).bind fun q => content? fs q.text).isSome

/-- The names that lead from the directory `base` to `target`. -/
def namesFrom : (base target : List String) → List String
  | [], target => target
  | base, [] => base.map fun _ => Path.upName
  | b :: base, t :: target =>
    if b = t then namesFrom base target else (b :: base).map (fun _ => Path.upName) ++ t :: target

/-- The name of a file in messages: its path from the working directory. -/
def originOf (fs : FileSystem) (p : Path) : String :=
  String.intercalate "/" (namesFrom fs.workDir (fs.start p ++ p.parts))

/-- The origin and the text of the settings file of a name. -/
def source? (fs : FileSystem) (name : String) : Option (String × String) := do
  let p ← file? fs name
  let text ← String.fromUTF8? (← content? fs p.text)
  return (originOf fs p, text)

/-- The layers that the settings file of a name makes up. -/
def tomlLayers (fs : FileSystem) (name : String) : Except Fault Layers :=
  match source? fs name with
  | none => .ok []
  | some (origin, text) =>
    match Toml.read? text with
    | none => .error .badSyntax
    | some entries => Layers.overlayFile origin entries []

/-- What a file in another format makes up where one is found under the name of the settings, or
`none` if the settings file is taken nevertheless. -/
abbrev OtherFormats : Type := FileSystem → String → Option (Except Fault Layers)

/-- No other format can be read. -/
def unreadable : OtherFormats := fun _ _ => some (.error .otherFormat)

/-- The layers that the file found under the name of the settings makes up. -/
def fileLayers (others : OtherFormats) (fs : FileSystem) (name : String) : Except Fault Layers :=
  if isInOtherFormat fs name then (others fs name).getD (tomlLayers fs name)
  else tomlLayers fs name

/-- Loads settings, with a way to read the other formats. -/
def loadReading (others : OtherFormats) (fs : FileSystem) (env : List (String × String))
    (name : String) : Except Fault Settings := do
  let layers ← fileLayers others fs name
  ofLayers (← layers.overlayVariables env)

def load (fs : FileSystem) (env : List (String × String)) (name : String) :
    Except Fault Settings := loadReading unreadable fs env name

end Settings
end NetPool
