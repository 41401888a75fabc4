import Locator.Url.Reader

namespace Locator.Url

open Text

/-- Two slashes stand in front of a host. Without a host they stand before a
    path that itself begins with two, and behind a recognized scheme unless the
    path is relative. -/
def slashes (u : Url) : Text :=
  if u.authority ≠ [] then "//".toList
  else if "//".toList <+: u.path ∨ (u.recognized ∧ (u.path = [] ∨ Path.rooted u.path)) then "//".toList
  else []

/-- A slash keeps a relative path apart from the host in front of it. -/
def gap (u : Url) : Text :=
  if u.authority ≠ [] ∧ u.path ≠ [] ∧ ¬ Path.rooted u.path then ['/'] else []

def schemeMark (u : Url) : Text :=
  if u.scheme = [] then [] else u.scheme ++ [':']

/-- The text of an address. -/
def write (u : Url) : Text :=
  u.schemeMark ++ u.slashes ++ u.authority ++ u.gap ++ u.path ++ marked '?' u.query ++ marked '#' u.fragment

/-- The one way the library writes the address that a text names. -/
def canonical (s : Text) : Text :=
  (read s).write

end Locator.Url
