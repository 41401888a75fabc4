import Locator.Toml.Moment
import Locator.Toml.Number

namespace Locator.Toml

open Reader

def spaces : Reader Unit := do
  let _ ← span isSpace

def comment : Reader Unit := do
  let _ ← char '#'
  let _ ← span isVisible

/-- What may stand between the items of an array: spaces, line ends and
    comments. -/
def filler : Reader Unit := do
  let _ ← many ((do let _ ← spanOf isSpace) <|> newline <|> comment *> newline)

/-- The rest of a line behind what stands on it. -/
def lineEnd : Reader Unit := do
  spaces
  let _ ← Reader.optional comment
  newline <|> ending

def bareKey : Reader Text :=
  spanOf fun c => c.isAlphanum || c == '_' || c == '-'

/-- How deep values may be nested, and how long a path of keys may be. -/
def depthLimit : Nat := 80

/-- A path of keys with dots between them. -/
def key : Reader (List Text) := do
  let path ← separated (char '.') (spaces *> (basicString <|> literalString <|> bareKey) <* spaces)
  if path.length < depthLimit then pure path else failure

def assignment (value : Reader Value) : Reader (List Text × Value) := do
  let path ← key
  let _ ← char '='
  spaces
  pure (path, ← value)

def array (value : Reader Value) : Reader Value := do
  let _ ← char '['
  let items ← (separated (char ',') (filler *> value <* filler) <* Reader.optional (char ',')) <|> pure []
  filler
  let _ ← char ']'
  pure (.array items)

/-- A table in braces, on one line. -/
def inlineTable (value : Reader Value) : Reader Value := do
  let _ ← char '\x7b'
  let entries ← separated (char ',') (assignment value <* spaces) <|> pure []
  spaces
  let _ ← char '\x7d'
  let table ← (entries.foldlM (fun t (path, v) => Table.assign path v t) [] : Option Table)
  pure (.table .inline table)

def boolean : Reader Value :=
  (do
    let _ ← word "true".toList
    pure (.boolean true))
  <|> do
    let _ ← word "false".toList
    pure (.boolean false)

def scalar : Reader Value :=
  (do pure (.string (← string))) <|> moment <|> float <|> integer <|> boolean

/-- A value with so many more levels of arrays and tables in braces. -/
def value : Nat → Reader Value
  | 0 => scalar
  | depth + 1 => scalar <|> array (value depth) <|> inlineTable (value depth)

/-- What a line of a document does. -/
inductive Entry where
  | blank
  | assign (path : List Text) (v : Value)
  | declare (path : List Text)
  | beginRow (path : List Text)

/-- One line, or the lines of one assignment. -/
def entry : Reader Entry :=
  (do
    comment
    newline <|> ending
    pure .blank)
  <|> (do
    newline
    pure .blank)
  <|> (do
    let _ ← word "[[".toList
    let path ← key
    let _ ← word "]]".toList
    lineEnd
    pure (.beginRow path))
  <|> (do
    let _ ← char '['
    let path ← key
    let _ ← char ']'
    lineEnd
    pure (.declare path))
  <|> do
    let (path, v) ← assignment (value (depthLimit - 1))
    lineEnd
    pure (.assign path v)

/-- The lines of a document. -/
def entries : Reader (List Entry) := do
  let _ ← Reader.optional (char '\uFEFF')
  spaces
  let lines ← many (entry <* spaces)
  ending
  pure lines

end Locator.Toml
