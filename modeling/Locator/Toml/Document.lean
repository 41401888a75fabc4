import Locator.Toml.Entry

namespace Locator.Toml

/-- A document as far as it is read: its table, and the path of the header that
    the last lines stand under. -/
structure Draft where
  table : Table
  path : List Text

namespace Draft

/-- A change at the last key of a path of headers. -/
def atHeader (change : Text → Table → Option Table) (path : List Text) (d : Draft) : Option Draft :=
  match path.getLast? with
  | none => none
  | some key => (Table.within (change key) path.dropLast d.table).map (⟨·, path⟩)

def add (d : Draft) : Entry → Option Draft
  | .blank => some d
  | .assign path v => (Table.within (Table.assign path v) d.path d.table).map (⟨·, d.path⟩)
  | .declare path => d.atHeader Table.declare path
  | .beginRow path => d.atHeader Table.beginRow path

end Draft

/-- The table of a document. -/
def read? (s : Text) : Option Table := do
  let (lines, _) ← entries s
  let draft ← lines.foldlM Draft.add ⟨[], []⟩
  pure draft.table

end Locator.Toml
