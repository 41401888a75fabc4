import Locator.Join.Anchor
import Locator.Local.Place
import Locator.Url.Printer

namespace Locator.Join

open Text

/-- Components are put behind the path of the base, or followed as a link in
    the document at the base. -/
inductive Mode where
  | append
  | follow
deriving DecidableEq

/-- The names of a base path that components go behind. A link is taken from
    the directory of its document. -/
def baseNames (mode : Mode) (path : Text) : List Text :=
  match mode with
  | .append => Path.names path
  | .follow => if path.getLast?.all (· == '/') then Path.names path else (Path.names path).dropLast

/-- A bucket counts as the first name of the path. -/
def bucketNames (u : Url) : List Text :=
  if u.scheme = Scheme.bucket ∧ u.authority ≠ [] then [u.authority] else []

/-- The names that a join of relative components leaves. -/
def joinedNames (mode : Mode) (base : Url) (relatives : List Text) : List Text :=
  Path.removeDots base.absolute (bucketNames base ++ baseNames mode base.path ++ relatives.flatMap Path.names)

/-- The base with relative components joined onto it, and no fragment. -/
def onto (mode : Mode) (base : Url) (relatives : List Text) : Url :=
  let names := joinedNames mode base relatives
  if base.scheme = Scheme.bucket then
    match names with
    | [] => { base with path := [], fragment := [] }
    | [bucket] => { base with authority := bucket, path := [], fragment := [] }
    | bucket :: key => { base with authority := bucket, path := '/' :: Path.slashed key, fragment := [] }
  else if base.absolute then { base with path := '/' :: Path.slashed names, fragment := [] }
  else { base with path := Path.slashed names, fragment := [] }

/-- An absolute argument that nothing goes onto. A rooted path becomes a file
    address. In the address of a file a hash belongs to the name, and a host is
    the first name of the path. -/
def alone (place : Place) (u : Url) : Text :=
  if u.scheme = [] ∨ u.scheme = Scheme.file then
    if u.authority ≠ [] then
      { u with scheme := Scheme.file, authority := [], path := place.fullPath (u.authority ++ u.path) }.write
    else { u with scheme := Scheme.file }.write
  else { Url.read u.write with fragment := [] }.write

/-- The join of arguments whose separators are all forward slashes. -/
def ofArgs (place : Place) (mode : Mode) (base : Text) (components : List Text) : Text :=
  match anchor? (base :: components) with
  | some anchor =>
    if anchor.index = components.length then alone place anchor.url
    else (onto mode (Url.read anchor.url.write) (components.drop anchor.index)).write
  | none => (onto mode (Url.read base) components).write

end Locator.Join

namespace Locator

/-- Joins components onto a base, either of them a local path or an address.
    The place tells what the relative path of a file address means. -/
def join (place : Place) (mode : Join.Mode) (base : Text) (components : List Text) : Text :=
  Join.ofArgs place mode (Text.forward base) (components.map Text.forward)

end Locator
