import Locator.Path.Segment
import Locator.Url.Scheme

namespace Locator

/-- An address in its five parts. An absent part is empty. -/
structure Url where
  scheme : Text
  authority : Text
  path : Text
  query : Text
  fragment : Text
deriving DecidableEq

namespace Url

/-- An address without query and fragment. -/
def make (scheme authority path : Text) : Url :=
  ⟨Text.lower scheme, authority, path, [], []⟩

/-- The same address under another scheme. -/
def underScheme (scheme : Text) (u : Url) : Url :=
  { u with scheme := Text.lower scheme }

def recognized (u : Url) : Bool :=
  Scheme.recognized u.scheme

/-- An address stands on its own by a recognized scheme, a host or a rooted
    path. -/
def absolute (u : Url) : Bool :=
  u.recognized || u.authority ≠ [] || Path.rooted u.path

end Url

end Locator
