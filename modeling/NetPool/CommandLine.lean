import NetPool.Session
import NetPool.Settings.Load

/-! # The command line

Three commands show the ledger, acquire assets and leave them in it, and remove an entry. Results
are printed as JSON. -/

namespace NetPool.CommandLine

/-! ## Arguments -/

/-- What is to be done. -/
inductive Command where
  /-- Print the ledger. -/
  | list
  /-- Acquire a number of assets, keeping clear of the leases of the hypervisor or not. -/
  | acquire (count : Nat) (asksHypervisor : Bool)
  /-- Remove the entry with that primary bridge. -/
  | reclaim (networkIf : String)
  deriving DecidableEq, Repr

/-- What the arguments ask for. -/
inductive Request where
  | run (settingsName : String) (command : Command)
  | help
  /-- The arguments make no sense. -/
  | misuse
  deriving DecidableEq, Repr

/-- An argument by its form. An option may have its value attached. -/
inductive Token where
  /-- The end of the options. -/
  | escape
  | help
  | settings (attached : Option String)
  | count (attached : Option String)
  | noHypervisor
  | unknown
  | word (s : String)
  deriving DecidableEq, Repr

def longOption (name : List Char) (attached : Option String) : Token :=
  if name = "config".toList then .settings attached
  else if name = "count".toList then .count attached
  else if attached.isSome then .unknown
  else if name = "help".toList then .help
  else if name = "no-hypervisor".toList then .noHypervisor
  else .unknown

def attachedValue? : List Char → Option String
  | '=' :: value => some (String.ofList value)
  | _ => none

/-- The value attached to a short option. The equals sign may be left out. -/
def shortValue? : List Char → Option String
  | [] => none
  | '=' :: value => some (String.ofList value)
  | value => some (String.ofList value)

/-- The form of an argument before the end of the options. A lone hyphen is a word. -/
def tokenOf (arg : String) : Token :=
  match arg.toList with
  | ['-', '-'] => .escape
  | ['-'] => .word arg
  | '-' :: '-' :: rest =>
    longOption (rest.takeWhile (· ≠ '=')) (attachedValue? (rest.dropWhile (· ≠ '=')))
  | '-' :: 'h' :: _ => .help
  | '-' :: 'c' :: rest => .settings (shortValue? rest)
  | '-' :: _ => .unknown
  | _ => .word arg

/-- The value of an option, attached or in the next argument, and the arguments after it. -/
def optionValue (attached : Option String) (rest : List String) : Option (String × List String) :=
  match attached, rest with
  | some value, rest => some (value, rest)
  | none, next :: rest =>
    match tokenOf next with
    | .word value => some (value, rest)
    | _ => none
  | none, [] => none

/-- The name of a command. -/
inductive CommandName where
  | list
  | acquire
  | reclaim
  deriving DecidableEq, Repr

def CommandName.ofText? (s : String) : Option CommandName :=
  if s = "show" then some .list
  else if s = "acquire" then some .acquire
  else if s = "reclaim" then some .reclaim
  else none

def helpWord : String := "help"

/-- What the arguments after a command have said so far. -/
structure Draft where
  command : CommandName
  settings? : Option String := none
  count? : Option Nat := none
  noHypervisor : Bool := false
  networkIf? : Option String := none

def usualCount : Nat := 1

def usualSettings : String := "netres"

/-- The request that a finished draft makes. The settings named after the command count more than
those named before it, `outer`. -/
def Draft.finish (d : Draft) (outer : Option String) : Request :=
  let settings := (d.settings? <|> outer).getD usualSettings
  match d.command, d.networkIf? with
  | .list, _ => .run settings .list
  | .acquire, _ => .run settings (.acquire (d.count?.getD usualCount) !d.noHypervisor)
  | .reclaim, some name => .run settings (.reclaim name)
  | .reclaim, none => .misuse

def Draft.takeWord? (d : Draft) (s : String) : Option Draft :=
  if d.command = .reclaim ∧ d.networkIf?.isNone then some { d with networkIf? := some s } else none

def Draft.takeSettings? (d : Draft) (name : String) : Option Draft :=
  if d.settings?.isNone then some { d with settings? := some name } else none

def Draft.takeCount? (d : Draft) (value : String) : Option Draft :=
  if d.command = .acquire ∧ d.count?.isNone then
    (Numeral.unsigned? Settings.wordLimit value.toList).map fun n => { d with count? := some n }
  else none

def Draft.takeNoHypervisor? (d : Draft) : Option Draft :=
  if d.command = .acquire ∧ !d.noHypervisor then some { d with noHypervisor := true } else none

def readWords (outer : Option String) : Draft → List String → Request
  | d, [] => d.finish outer
  | d, arg :: args =>
    match d.takeWord? arg with
    | some d => readWords outer d args
    | none => .misuse

/-- Reads the arguments after a command, from left to right; `fuel` bounds their number. -/
def readOptions (outer : Option String) : (fuel : Nat) → Draft → List String → Request
  | 0, _, _ => .misuse
  | _ + 1, d, [] => d.finish outer
  | fuel + 1, d, arg :: args =>
    let goOn (next : Option (Draft × List String)) : Request :=
      match next with
      | some (d, args) => readOptions outer fuel d args
      | none => .misuse
    match tokenOf arg with
    | .escape => readWords outer d args
    | .help => .help
    | .unknown => .misuse
    | .noHypervisor => goOn (d.takeNoHypervisor?.map (·, args))
    | .word s => goOn ((d.takeWord? s).map (·, args))
    | .settings attached => goOn do
      let (value, args) ← optionValue attached args
      return (← d.takeSettings? value, args)
    | .count attached => goOn do
      let (value, args) ← optionValue attached args
      return (← d.takeCount? value, args)

/-- What is asked for after the word for help: nothing more, or the name of a command. -/
def readHelp : List String → Request
  | [] => .help
  | [topic] => if topic = helpWord ∨ (CommandName.ofText? topic).isSome then .help else .misuse
  | _ => .misuse

/-- The request with only its wish for help allowed. -/
def Request.orMisuse : Request → Request
  | .help => .help
  | .run .. | .misuse => .misuse

def readCommand (outer : Option String) (name : String) (args : List String) : Request :=
  if name = helpWord then readHelp args
  else
    match CommandName.ofText? name with
    | some command => readOptions outer (args.length + 1) { command := command } args
    | none => .misuse

/-- Reads the arguments up to the command after the settings were named twice, the second time
with the name in an argument of its own. That this makes no sense is noticed only after the
command, which may ask for help. -/
def readAfterRepeat (settings : String) : List String → Request
  | [] => .misuse
  | arg :: args =>
    match tokenOf arg with
    | .word s => (readCommand (some settings) s args).orMisuse
    | _ => .misuse

/-- Reads the arguments up to the command. Only the settings may be named before it, once. -/
def readFront (fuel : Nat) (settings? : Option String) (args : List String) : Request :=
  match fuel, args with
  | 0, _ => .misuse
  | _ + 1, [] => .misuse
  | fuel + 1, arg :: args =>
    match tokenOf arg with
    | .help => .help
    | .word s => readCommand settings? s args
    | .settings attached =>
      match optionValue attached args, settings?, attached with
      | none, _, _ => .misuse
      | some (value, args), none, _ => readFront fuel (some value) args
      | some (value, args), some _, none => readAfterRepeat value args
      | some _, some _, some _ => .misuse
    | .escape | .count _ | .noHypervisor | .unknown => .misuse

def requestOf (args : List String) : Request := readFront (args.length + 1) none args

/-! ## Runs -/

structure Report where
  code : Nat
  stdout : String
  stderr : String
  deriving DecidableEq

inductive Failure where
  | error (e : Error)
  /-- No entry has that primary bridge. -/
  | noEntry (networkIf : String)

/-- The wording of a failure, with its cause in a paragraph of its own. -/
def Failure.text : Failure → String
  | .error e =>
    "Error: " ++ e.message ++
      match e.cause? with
      | some cause => "\n\nCaused by:\n    " ++ cause
      | none => ""
  | .noEntry networkIf => "Error: No ledger entry with network_if " ++ networkIf

def usage : String :=
  "Conflict-free network assets for test runs sharing a hypervisor\n\n" ++
  "Usage: netres [-c|--config NAME] COMMAND\n\n" ++
  "  show                                   Print the ledger\n" ++
  "  acquire [--count N] [--no-hypervisor]  Reserve assets and leave them in the ledger\n" ++
  "  reclaim NETWORK_IF                     Remove an entry by its primary bridge\n" ++
  "  help                                   Print this text\n"

def successCode : Nat := 0

def failureCode : Nat := 1

def misuseCode : Nat := 2

/-- The code of a run that a number out of range broke off. -/
def outOfRangeCode : Nat := 101

def Failure.code : Failure → Nat
  | .error e => if e.isOutOfRange then outOfRangeCode else failureCode
  | .noEntry _ => failureCode

/-- The report of a run from its outcome: what it prints, or why it failed. -/
def Report.of : Except Failure String → Report
  | .ok output => ⟨successCode, output ++ "\n", ""⟩
  | .error f => ⟨f.code, "", f.text ++ "\n"⟩

/-- The hypervisor to keep clear of. Its program is tried out first. -/
def connect (s : Settings) (asksHypervisor : Bool) : Action Hypervisor :=
  if asksHypervisor then do
    discard (Action.ask (Virsh.version · s.virshPath))
    return Virsh.hypervisor s.virshPath s.uri
  else return .known []

def list (s : Settings) : Action String := do
  return Asset.listJson (← (Session.new s (.known []) []).snapshot)

/-- Acquires assets. Those acquired before a failure stay in the ledger. Memory must be able to
hold that many. -/
def acquire (s : Settings) (count : Nat) (asksHypervisor : Bool) : Action String := do
  let hypervisor ← connect s asksHypervisor
  if !(← get).canHold count then throw (.outOfRange .count)
  Effect.of fun w =>
    let (p, w) := (Session.new s hypervisor w.interfaces).acquireMany count w
    match p.failure with
    | some e => (.error e, w)
    | none => (.ok (Asset.listJson p.assets), w)

def reclaim (s : Settings) (networkIf : String) : Action (Option String) := do
  return (← (Session.new s (.known []) []).reclaim networkIf).map Asset.prettyJson

/-- Carries out a command: what it prints, or why it failed. -/
def perform (s : Settings) (c : Command) (w : World) : Except Failure String × World :=
  match c with
  | .list => let (r, w) := (list s).outcome w; (r.mapError .error, w)
  | .acquire count asksHypervisor =>
    let (r, w) := (acquire s count asksHypervisor).outcome w
    (r.mapError .error, w)
  | .reclaim networkIf =>
    match (reclaim s networkIf).outcome w with
    | (.error e, w) => (.error (.error e), w)
    | (.ok none, w) => (.error (.noEntry networkIf), w)
    | (.ok (some text), w) => (.ok text, w)

/-- A run, with a way to read settings in other formats. -/
def runReading (others : Settings.OtherFormats) (env : List (String × String)) (args : List String)
    (w : World) : Report × World :=
  match requestOf args with
  | .misuse => (⟨misuseCode, "", usage⟩, w)
  | .help => (⟨successCode, usage, ""⟩, w)
  | .run settingsName command =>
    match Settings.loadReading others w.files env settingsName with
    | .error fault => (.of (.error (.error (.configuration fault))), w)
    | .ok s => let (r, w) := perform s command w; (.of r, w)

def run (env : List (String × String)) (args : List String) (w : World) : Report × World :=
  runReading Settings.unreadable env args w

end NetPool.CommandLine
