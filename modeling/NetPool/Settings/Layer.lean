import NetPool.Settings.Fault
import NetPool.Settings.Variable

/-! # Layers of settings

Sources are laid over each other. Their tables merge key by key, and any other value replaces
what was there. A value knows its source; what the layers made on the way to it has none. -/

namespace NetPool

namespace Settings

/-- What the layers hold. -/
inductive Layered where
  | scalar (origin : String) (s : Toml.Scalar)
  | list (origin : Option String) (items : List Layered)
  | table (origin : Option String) (entries : List (String × Layered))
  /-- A place that was made only to get at another one. -/
  | gap

/-- A table of layers: distinct keys with what they hold. -/
abbrev Layers : Type := List (String × Layered)

namespace Layered

mutual

def ofValue (origin : String) : Toml.Value → Layered
  | .scalar s => .scalar origin s
  | .list items => .list (some origin) (ofItems origin items)
  | .table _ entries => .table (some origin) (ofEntries origin entries)
  | .tables elements => .list (some origin) (ofTables origin elements)

def ofItems (origin : String) : List Toml.Value → List Layered
  | [] => []
  | v :: items => ofValue origin v :: ofItems origin items

def ofEntries (origin : String) : List (String × Toml.Value) → Layers
  | [] => []
  | (key, v) :: entries => (key, ofValue origin v) :: ofEntries origin entries

def ofTables (origin : String) : List (List (String × Toml.Value)) → List Layered
  | [] => []
  | entries :: elements =>
    .table (some origin) (ofEntries origin entries) :: ofTables origin elements

end

/-- The table in the place of a value, with its origin: the value itself, or else an empty one. -/
def asTable : Layered → Option String × Layers
  | .table origin entries => (origin, entries)
  | _ => (none, [])

/-- The list in the place of a value, with its origin: the value itself, or else an empty one. -/
def asList : Layered → Option String × List Layered
  | .list origin items => (origin, items)
  | _ => (none, [])

end Layered

/-- Puts `v` in the place of what has that key, or at the end. -/
def Layers.replace (key : String) (v : Layered) : Layers → Layers
  | [] => [(key, v)]
  | l :: ls => if l.1 = key then (key, v) :: ls else l :: replace key v ls

/-! ## Laying values over others -/

mutual

/-- Lays a value over what a table holds under a key. -/
def Layers.put (key : String) : Layered → Layers → Layers
  | .table _ entries, ls =>
    ls.replace key (Layered.merge entries ((ls.lookup key).getD (.table none [])))
  | .scalar origin s, ls => ls.replace key (.scalar origin s)
  | .list origin items, ls => ls.replace key (.list origin items)
  | .gap, ls => ls.replace key .gap

/-- Lays entries over a value, which becomes a table if there are any. -/
def Layered.merge : List (String × Layered) → Layered → Layered
  | [], w => w
  | (key, v) :: entries, w =>
    let name := String.ofList (lower key.toList)
    Layered.merge entries (.table w.asTable.1 (Layers.put name v w.asTable.2))

end

/-- The most places that an index may add to a list. -/
def maxPlaces : Nat := 0x1000000

/-- The place of an index in a list of that length. It may lie beyond the end, but not before the
start. -/
def place? (length : Nat) (i : Int) : Option Nat :=
  let n := if i < 0 then length + i else i
  if 0 ≤ n ∧ n < length + maxPlaces then some n.toNat else none

/-- The list with gaps after it, so that it has the place `n`. -/
def withPlace (n : Nat) (items : List Layered) : List Layered :=
  items ++ List.replicate (n + 1 - items.length) .gap

/-- Lays a value over what a path leads to from another value. What is no table, or no list, on
the way becomes one. -/
def Layered.putAt (v : Layered) : (path : List Step) → Layered → Except Fault Layered
  | [], _ => .ok v
  | [.name key], w => .ok (.table w.asTable.1 (Layers.put key v w.asTable.2))
  | .name key :: path, w => do
    let (origin, entries) := w.asTable
    return .table origin (entries.replace key (← putAt v path ((entries.lookup key).getD .gap)))
  | .index i :: path, w => do
    let (origin, items) := w.asList
    match place? items.length i with
    | none => throw .outOfRange
    | some n =>
      let items := withPlace n items
      return .list origin (items.set n (← putAt v path (items[n]?.getD .gap)))

namespace Layers

def putAt (v : Layered) (path : List Step) (ls : Layers) : Except Fault Layers := do
  return (← Layered.putAt v path (.table none ls)).asTable.2

/-- Lays a file over the layers. Its outermost keys may be paths. -/
def overlayFile (origin : String) (entries : Toml.Entries) (ls : Layers) : Except Fault Layers :=
  entries.foldlM (fun ls e => ls.putAt (.ofValue origin e.2) (keyPath e.1.toList)) ls

/-- The origin of what variables set. -/
def environmentName : String := "the environment"

/-- Lays a variable over the layers, if it sets anything. -/
def overlayVariable (ls : Layers) (name text : String) : Except Fault Layers :=
  match variableKey? name with
  | none => .ok ls
  | some key => ls.putAt (.scalar environmentName (variableValue text)) (keyPath key)

def overlayVariables (env : List (String × String)) (ls : Layers) : Except Fault Layers :=
  env.foldlM (fun ls e => ls.overlayVariable e.1 e.2) ls

end Layers

end Settings
end NetPool
