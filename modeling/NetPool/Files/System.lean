import NetPool.Files.Path

/-! # Files

A file system maps absolute paths, as lists of names, to directories and files. A file has a
number of its own besides its path: a removed file and a later one of the same path differ. -/

namespace NetPool

/-- Why an operation on files failed. -/
inductive IoError where
  | notFound
  | permissionDenied
  | alreadyExists
  | notDirectory
  | isDirectory
  | nameTooLong
  | nulInPath
  | nulInProgram
  | invalidUtf8
  | notPermitted
  | inputOutput
  | busy
  | noSpace
  | readOnly
  deriving DecidableEq, Repr

def IoError.message : IoError → String
  | .notFound => "No such file or directory (os error 2)"
  | .permissionDenied => "Permission denied (os error 13)"
  | .alreadyExists => "File exists (os error 17)"
  | .notDirectory => "Not a directory (os error 20)"
  | .isDirectory => "Is a directory (os error 21)"
  | .nameTooLong => "File name too long (os error 36)"
  | .nulInPath => "file name contained an unexpected NUL byte"
  | .nulInProgram => "nul byte found in provided data"
  | .invalidUtf8 => "stream did not contain valid UTF-8"
  | .notPermitted => "Operation not permitted (os error 1)"
  | .inputOutput => "Input/output error (os error 5)"
  | .busy => "Device or resource busy (os error 16)"
  | .noSpace => "No space left on device (os error 28)"
  | .readOnly => "Read-only file system (os error 30)"

/-- Why a file cannot be changed although its path leads to it. -/
inductive Refusal where
  | permissionDenied
  | notPermitted
  | inputOutput
  | busy
  | noSpace
  | readOnly
  deriving DecidableEq, Repr

def Refusal.error : Refusal → IoError
  | permissionDenied => .permissionDenied
  | notPermitted => .notPermitted
  | inputOutput => .inputOutput
  | busy => .busy
  | noSpace => .noSpace
  | readOnly => .readOnly

abbrev FileId : Type := Nat

/-- What a path names. -/
inductive Node where
  | directory
  | file (id : FileId) (content : ByteArray)

def Node.isDirectory : Node → Bool
  | .directory => true
  | .file .. => false

/-- A file system, with its working directory and the number of the next file. Whatever is there,
`refusal?` may forbid that a place gets a file of some content, or that it loses its file. -/
structure FileSystem where
  node? : List String → Option Node
  workDir : List String
  nextId : FileId
  refusal? : List String → Option ByteArray → Option Refusal

/-- Where a path leads. -/
inductive Place where
  /-- A directory that is known to exist. -/
  | directory (names : List String)
  /-- An entry of an existing directory, which itself may exist or not. -/
  | entry (names : List String) (ending : PathEnding)
  deriving DecidableEq

namespace FileSystem

/-- A file system with only the working directory and those above it. Nothing is forbidden. -/
def empty (workDir : List String) : FileSystem where
  node? names := if names.isPrefixOf workDir then some .directory else none
  workDir := workDir
  nextId := 0
  refusal? _ _ := none

def maxNameLength : Nat := 255

def maxPathLength : Nat := 4095

def set (fs : FileSystem) (names : List String) (node : Option Node) : FileSystem :=
  { fs with node? := fun other => if other = names then node else fs.node? other }

/-- Follows names from a directory; every one must name a directory. -/
def follow (fs : FileSystem) : List String → List String → Except IoError (List String)
  | here, [] => .ok here
  | here, name :: names =>
    -- No entry is a link, so the names alone tell the directory above. The root is its own.
    if name = Path.upName then fs.follow here.dropLast names
    else if name.utf8ByteSize > maxNameLength then .error .nameTooLong
    else
      match fs.node? (here ++ [name]) with
      | none => .error .notFound
      | some (.file ..) => .error .notDirectory
      | some .directory => fs.follow (here ++ [name]) names

def start (fs : FileSystem) (p : Path) : List String := if p.absolute then [] else fs.workDir

/-- Where a path leads; all but its last name must be directories. -/
def locatePath (fs : FileSystem) (p : Path) : Except IoError Place :=
  match p.parts.getLast? with
  | none => .ok (.directory (fs.start p))
  | some name =>
    if name = Path.upName then (fs.follow (fs.start p) p.parts).map .directory
    else
      match fs.follow (fs.start p) p.parts.dropLast with
      | .error e => .error e
      | .ok here =>
        if name.utf8ByteSize > maxNameLength then .error .nameTooLong
        else .ok (.entry (here ++ [name]) p.ending)

/-- Whether a text cannot be a path at all. -/
def textFault? (path : String) : Option IoError :=
  if path.toList.any (·.toNat = 0) then some .nulInPath
  else if path.isEmpty then some .notFound
  else if path.utf8ByteSize > maxPathLength then some .nameTooLong
  else none

def locate (fs : FileSystem) (path : String) : Except IoError Place :=
  match textFault? path with
  | some e => .error e
  | none => fs.locatePath (.ofText path)

def look (fs : FileSystem) (path : String) : Except IoError Node :=
  match fs.locate path with
  | .error e => .error e
  | .ok (.directory _) => .ok .directory
  | .ok (.entry names ending) =>
    match fs.node? names with
    | none => .error .notFound
    | some .directory => .ok .directory
    | some (.file id content) =>
      if ending = .plain then .ok (.file id content) else .error .notDirectory

def isPresent (fs : FileSystem) (path : String) : Bool :=
  match fs.look path with
  | .ok _ => true
  | .error _ => false

def read (fs : FileSystem) (path : String) : Except IoError ByteArray :=
  match fs.look path with
  | .error e => .error e
  | .ok .directory => .error .isDirectory
  | .ok (.file _ content) => .ok content

def fileId (fs : FileSystem) (path : String) : Except IoError FileId :=
  match fs.look path with
  | .error e => .error e
  | .ok .directory => .error .isDirectory
  | .ok (.file id _) => .ok id

/-- Opens a file for writing, creating it without content if its path names nothing. -/
def openOrCreate (fs : FileSystem) (path : String) :
    Except IoError (List String × FileId × FileSystem) :=
  match fs.locate path with
  | .error e => .error e
  | .ok (.directory _) => .error .isDirectory
  | .ok (.entry names ending) =>
    -- Only a directory could be meant, and none can be opened for writing.
    if ending = .slash then .error .isDirectory
    else
      match fs.node? names with
      | some .directory => .error .isDirectory
      | some (.file id _) => if ending = .plain then .ok (names, id, fs) else .error .notDirectory
      | none =>
        if ending = .plain then
          .ok (names, fs.nextId,
            { fs.set names (some (.file fs.nextId .empty)) with nextId := fs.nextId + 1 })
        else .error .notFound

/-- Puts the content into a file, which is created if need be. Where that is forbidden, the file
stays as it is. -/
def write (fs : FileSystem) (path : String) (content : ByteArray) : Except IoError FileSystem :=
  match fs.openOrCreate path with
  | .error e => .error e
  | .ok (names, id, opened) =>
    match fs.refusal? names (some content) with
    | some r => .error r.error
    | none => .ok (opened.set names (some (.file id content)))

/-- Removes a file. Where that is forbidden, the file stays. -/
def remove (fs : FileSystem) (path : String) : Except IoError FileSystem :=
  match fs.locate path with
  | .error e => .error e
  | .ok (.directory _) => .error .isDirectory
  | .ok (.entry names ending) =>
    match fs.refusal? names none, fs.node? names with
    | some r, _ => .error r.error
    | none, none => .error .notFound
    | none, some .directory => .error .isDirectory
    | none, some (.file ..) =>
      if ending = .plain then .ok (fs.set names none) else .error .notDirectory

def removeIfPresent (fs : FileSystem) (path : String) : Except IoError FileSystem :=
  match fs.remove path with
  | .error .notFound => .ok fs
  | result => result

def makeDirectory (fs : FileSystem) (p : Path) : Except IoError FileSystem :=
  match fs.locatePath p with
  | .error e => .error e
  | .ok (.directory _) => .error .alreadyExists
  | .ok (.entry names ending) =>
    -- A point at the end leads into the directory, which has to exist for that.
    match fs.node? names, ending with
    | none, .point => .error .notFound
    | none, _ => .ok (fs.set names (some .directory))
    | some (.file ..), .point => .error .notDirectory
    | some _, _ => .error .alreadyExists

def isDirectory (fs : FileSystem) (p : Path) : Bool :=
  match fs.locatePath p with
  | .ok (.directory _) => true
  | .ok (.entry names _) => (fs.node? names).any (·.isDirectory)
  | .error _ => false

/-- Makes a directory unless it exists: the failure if that does not help, and the file system
afterwards. -/
def ensureDirectory (fs : FileSystem) (p : Path) : Except IoError Unit × FileSystem :=
  match fs.makeDirectory p with
  | .ok fs => (.ok (), fs)
  | .error e => (if e = .alreadyExists && fs.isDirectory p then .ok () else .error e, fs)

/-- Makes the directory with the given names, and those above it as far as they are missing. The
names are given in reverse, with the ending of the path. -/
def ensureNames (fs : FileSystem) (absolute : Bool) (ending : PathEnding) :
    List String → Except IoError Unit × FileSystem
  | [] => (.ok (), fs)
  | name :: above =>
    let p : Path := ⟨absolute, (name :: above).reverse, ending⟩
    -- Those above are looked at only if the directory cannot be made without them.
    match fs.ensureDirectory p with
    | (.error .notFound, _) =>
      match fs.ensureNames absolute .plain above with
      | (.error e, fs) => (.error e, fs)
      | (.ok (), fs) => fs.ensureDirectory p
    | result => result

/-- Makes the directory of a path, and those above it as far as they are missing. What was made
before a failure stays. -/
def makeDirectories (fs : FileSystem) (p : Path) : Except IoError Unit × FileSystem :=
  fs.ensureNames p.absolute p.ending p.parts.reverse

/-- Makes the directory of a text's path, and those above it as far as they are missing. -/
def makeDirectoriesOf (fs : FileSystem) (path : String) : Except IoError Unit × FileSystem :=
  if path.isEmpty then (.ok (), fs)
  else
    match textFault? path with
    | some e => (.error e, fs)
    | none => fs.makeDirectories (.ofText path)

/-- Makes the directories above the last name of a text's path as far as they are missing. -/
def makeParents (fs : FileSystem) (path : String) : Except IoError Unit × FileSystem :=
  match (Path.ofText path).parent? with
  | none => (.ok (), fs)
  | some above => fs.makeDirectoriesOf above.text

end FileSystem
end NetPool
