import NetPool.Toml.Value

/-! # TOML tables

A table is begun once. Its own header may follow the headers of tables within it, and keys with
points may add to what such keys have begun. All else that names a thing twice is refused. -/

namespace NetPool.Toml

namespace Entries

/-- Puts a value in the place of the one with that key, or at the end. -/
def replace (key : String) (v : Value) : Entries → Entries
  | [] => [(key, v)]
  | e :: es => if e.1 = key then (key, v) :: es else e :: replace key v es

/-- Adds a value under a new key. -/
def add (key : String) (v : Value) (es : Entries) : Option Entries :=
  if (es.lookup key).isSome then none else some (es ++ [(key, v)])

/-- Adds a value under a key with points, of which `path` stands before the last one. What the
path leads through must be open to such keys, and its end must have been begun by one. -/
def assign (key : String) (v : Value) : (path : List String) → Entries → Option Entries
  | [], es => es.add key v
  | p :: path, es =>
    match es.lookup p with
    | none => (assign key v path []).map fun inner => es.replace p (.table .dotted inner)
    | some (.table .dotted inner) =>
      (assign key v path inner).map fun inner => es.replace p (.table .dotted inner)
    | some (.table .implied inner) =>
      if path.isEmpty then none
      else (assign key v path inner).map fun inner => es.replace p (.table .implied inner)
    | some (.tables elements) =>
      if path.isEmpty then none
      else
        (assign key v path (elements.getLast?.getD [])).map fun inner =>
          es.replace p (.tables (elements.dropLast ++ [inner]))
    | some _ => none

/-- Goes to the table that a path of headers names, the last one of several of a name, and
changes it there. -/
def descend (change : Entries → Option Entries) : (path : List String) → Entries → Option Entries
  | [], es => change es
  | p :: path, es =>
    match es.lookup p with
    | none => (descend change path []).map fun inner => es.replace p (.table .implied inner)
    | some (.table .inline _) => none
    | some (.table form inner) =>
      (descend change path inner).map fun inner => es.replace p (.table form inner)
    | some (.tables elements) =>
      (descend change path (elements.getLast?.getD [])).map fun inner =>
        es.replace p (.tables (elements.dropLast ++ [inner]))
    | some _ => none

end Entries

/-- A key with its value. `path` holds the parts of the key before the last one. -/
structure Assignment where
  path : List String
  key : String
  value : Value

def Entries.assignAll (es : Entries) (as : List Assignment) : Option Entries :=
  as.foldlM (fun es a => es.assign a.key a.value a.path) es

/-- What a header announces: a table, or one more of several tables of a name. -/
inductive HeaderKind where
  | table
  | element
  deriving DecidableEq

structure Section where
  kind : HeaderKind
  path : List String
  key : String
  assignments : List Assignment

def Section.fill (s : Section) (es : Entries) : Option Entries := es.assignAll s.assignments

/-- Adds the table of a section to the table that holds it. -/
def Section.addTo (s : Section) (es : Entries) : Option Entries :=
  match s.kind, es.lookup s.key with
  | .table, none => (s.fill []).map fun inner => es.replace s.key (.table .headed inner)
  | .table, some (.table .implied inner) =>
    (s.fill inner).map fun inner => es.replace s.key (.table .headed inner)
  | .element, none => (s.fill []).map fun inner => es.replace s.key (.tables [inner])
  | .element, some (.tables elements) =>
    (s.fill []).map fun inner => es.replace s.key (.tables (elements ++ [inner]))
  | _, some _ => none

/-- The table that assignments and the sections after them make up. -/
def Entries.ofSections (as : List Assignment) (ss : List Section) : Option Entries := do
  ss.foldlM (fun es s => es.descend s.addTo s.path) (← Entries.assignAll [] as)

end NetPool.Toml
