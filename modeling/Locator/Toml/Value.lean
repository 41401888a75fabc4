import Locator.Text.Basic

namespace Locator.Toml

/-- How a table came to be: by its own header, by the header of a table below
    it, by a key with dots, or written in braces. -/
inductive Origin where
  | declared
  | implied
  | dotted
  | inline
deriving DecidableEq

/-- A value of a document. Numbers with a fraction and points in time are kept
    as they are written. -/
inductive Value where
  | string (s : Text)
  | integer (n : Int)
  | float (written : Text)
  | boolean (b : Bool)
  | moment (written : Text)
  | array (items : List Value)
  | table (origin : Origin) (entries : List (Text × Value))
  | tables (rows : List (List (Text × Value)))

/-- Keys with their values, in the order they were first named. -/
abbrev Table := List (Text × Value)

namespace Table

/-- The table with another value for a key that it has. -/
def replace (key : Text) (v : Value) (t : Table) : Table :=
  t.map fun entry => if entry.1 = key then (key, v) else entry

def add (key : Text) (v : Value) (t : Table) : Table :=
  t ++ [(key, v)]

/-- Gives a value to the key at the end of a path, once. Only tables that keys
    with dots made are filled in this way. -/
def assign : List Text → Value → Table → Option Table
  | [], _, _ => none
  | [key], v, t => if (t.lookup key).isNone then some (t.add key v) else none
  | key :: path, v, t =>
    match t.lookup key with
    | none => (assign path v []).map fun inner => t.add key (.table .dotted inner)
    | some (.table origin inner) =>
      if origin = .dotted ∨ (origin = .implied ∧ 1 < path.length) then
        (assign path v inner).map fun inner => t.replace key (.table origin inner)
      else none
    | some (.tables rows) =>
      if 1 < path.length then
        (assign path v (rows.getLastD [])).map fun row => t.replace key (.tables (rows.dropLast ++ [row]))
      else none
    | some _ => none

/-- Changes the table at the end of a path of headers. A table that is missing
    on the way is implied, and of several rows the last is meant. -/
def within (change : Table → Option Table) : List Text → Table → Option Table
  | [], t => change t
  | key :: path, t =>
    match t.lookup key with
    | none => (within change path []).map fun inner => t.add key (.table .implied inner)
    | some (.table origin inner) =>
      if origin = .inline then none
      else (within change path inner).map fun inner => t.replace key (.table origin inner)
    | some (.tables rows) =>
      (within change path (rows.getLastD [])).map fun row => t.replace key (.tables (rows.dropLast ++ [row]))
    | some _ => none

/-- A header declares a table that is new or so far only implied. -/
def declare (key : Text) (t : Table) : Option Table :=
  match t.lookup key with
  | none => some (t.add key (.table .declared []))
  | some (.table .implied inner) => some (t.replace key (.table .declared inner))
  | some _ => none

/-- A header in double brackets begins another row. -/
def beginRow (key : Text) (t : Table) : Option Table :=
  match t.lookup key with
  | none => some (t.add key (.tables [[]]))
  | some (.tables rows) => some (t.replace key (.tables (rows ++ [[]])))
  | some _ => none

end Table

end Locator.Toml
