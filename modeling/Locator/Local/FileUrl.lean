import Locator.Local.Place
import Locator.Text.Percent
import Locator.Url.Printer

namespace Locator

open Text

namespace FileUrl

/-- Tabs and line ends are dropped when the path of an address is read. -/
def isDropped (c : Char) : Bool :=
  c == '\t' || c == '\n' || c == '\r'

def cleaned (s : Text) : Text :=
  s.filter (!isDropped ·)

/-- The characters that the path of an address cannot hold as they are, with
    the percent sign and the backslash, which it would read anew. -/
def mustEscape (c : Char) : Bool :=
  c ≤ ' ' || '\x7f' ≤ c || "\"<>`#?\x7b\x7d%\\".toList.contains c

def isDrive : Text → Bool
  | [letter, mark] => letter.isAlpha && (mark == ':' || mark == '|')
  | _ => false

/-- A first name whose drive is cut off from the rest by a dropped character. -/
def cutDrive? (raw : Text) : Option (Text × Text) :=
  match raw.dropWhile isDropped with
  | letter :: r =>
    match r.dropWhile isDropped with
    | ':' :: mark :: rest =>
      if letter.isAlpha && isDropped mark && cleaned rest ≠ [] then some ([letter, ':'], cleaned rest) else none
    | _ => none
  | [] => none

/-- The names that a first name makes, last on top. A drive is written with its
    colon. -/
def storeFirst (raw : Text) : List Text :=
  match cutDrive? raw with
  | some (drive, rest) => [rest, drive]
  | none => if isDrive (cleaned raw) then [(cleaned raw).take 1 ++ [':']] else [cleaned raw]

/-- One name upon those stored, last on top. Dot names that dropping brings
    about are carried out, and a drive is never climbed out of. -/
def store (stored : List Text) (raw : Text) : List Text :=
  if cleaned raw = ['.'] then stored
  else if cleaned raw = ['.', '.'] then
    match stored with
    | [] => []
    | last :: below => if isDrive last then stored else below
  else if stored = [] then storeFirst raw
  else cleaned raw :: stored

/-- A path that ends in a dot name is that of a directory. -/
def endsInDots (names : List Text) : Bool :=
  match names.getLast? with
  | some raw => cleaned raw == ['.'] || cleaned raw == ['.', '.']
  | none => false

/-- The path of the address of a file, from the names of the file's path. -/
def path (names : List Text) : Text :=
  let stored := (names.foldl store []).reverse
  let stored := if endsInDots names then stored ++ [[]] else stored
  '/' :: Path.slashed ((stored.dropWhile (· = [])).map (Percent.escape mustEscape))

end FileUrl

namespace Place

/-- The address of the file that a local path means at this place. -/
def fileUrl (place : Place) (path : Text) : Text :=
  "file://".toList ++ FileUrl.path (place.fullNames path)

/-- A rooted path as its style writes it: a drive loses the slash in front. -/
def localForm (style : Style) (path : Text) : Text :=
  match style with
  | .posix => path
  | .windows =>
    (if path.head? = some '/' ∧ hasDrive path.tail then path.tail else path).map
      fun c => if c = '/' then '\\' else c

/-- The local path in an address, whatever its scheme. -/
def localPath (place : Place) (url : Text) : Text :=
  localForm place.style (Percent.unescape (Url.read url).path)

/-- The local path of a file address. -/
def localPath? (place : Place) (url : Text) : Option Text :=
  if (Url.read url).scheme = Scheme.file then some (place.localPath url) else none

def requireLocalPath (place : Place) (url : Text) : Except Fault Text :=
  match place.localPath? url with
  | some path => .ok path
  | none => .error (.notFileUrl url)

/-- The address of a local path, or an address in canonical form. -/
def address (place : Place) (s : Text) : Text :=
  if (Url.read s).recognized then Url.canonical s else place.fileUrl s

end Place

end Locator
