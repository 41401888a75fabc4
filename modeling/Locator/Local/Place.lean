import Locator.Path.Segment
import Locator.Text.Quoted

namespace Locator

open Text

inductive Style where
  | posix
  | windows
deriving DecidableEq

/-- The style of the machines that the library is made for. -/
def Style.ofHost : Style := .posix

/-- Where local paths are taken: their style and the directory that relative
    ones start from, written with forward slashes. -/
structure Place where
  style : Style
  cwd : Text
  backslash_notMem : '\\' ∉ cwd

/-- Why a local path or an address was refused. -/
inductive Fault where
  | noWorkingDirectory
  | notFileUrl (url : Text)
deriving DecidableEq

namespace Fault

def message : Fault → Text
  | noWorkingDirectory => "cannot determine current directory".toList
  | notFileUrl url => quoted url ++ " is not a file:// URL".toList

end Fault

namespace Place

/-- The directory may be given with either separator. -/
def make (style : Style) (cwd : Text) : Place :=
  ⟨style, forward cwd, backslash_notMem_forward cwd⟩

/-- The place that a program runs in, if its working directory can be read. -/
def ofHost : Option Text → Except Fault Place
  | some cwd => .ok (make Style.ofHost cwd)
  | none => .error .noWorkingDirectory

/-- The root stands in for a working directory that cannot be read. -/
def ofHostOrRoot (cwd : Option Text) : Place :=
  make Style.ofHost (cwd.getD Path.root)

/-- A path with one separator only: the style of Windows has two. -/
def separated (style : Style) (path : Text) : Text :=
  match style with
  | .posix => path
  | .windows => forward path

/-- A letter and a colon in front. -/
def hasDrive : Text → Bool
  | letter :: ':' :: _ => letter.isAlpha
  | _ => false

def isAbsolute (style : Style) (path : Text) : Bool :=
  Path.rooted path || (style == .windows && hasDrive path)

/-- The names from the root down to a local path, without dot names. -/
def fullNames (place : Place) (path : Text) : List Text :=
  let path := separated place.style path
  Path.removeDots true (Path.names (if isAbsolute place.style path then path else place.cwd ++ '/' :: path))

/-- The rooted path that a local path means at this place. A drive is the first
    name below the root. -/
def fullPath (place : Place) (path : Text) : Text :=
  '/' :: Path.slashed (place.fullNames path)

end Place

end Locator
