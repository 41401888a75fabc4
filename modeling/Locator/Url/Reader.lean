import Locator.Url.Basic

namespace Locator.Url

open Text

def inAuthority (c : Char) : Bool :=
  c != '/' && c != '?'

/-- The authority that two slashes open, and the text behind it. -/
def cutAuthority : Text → Text × Text
  | '/' :: '/' :: s => (s.takeWhile inAuthority, s.dropWhile inAuthority)
  | s => ([], s)

/-- Reads a text in which a hash is a character like any other, so that there
    is no fragment. -/
def readPlain (s : Text) : Url :=
  let hier := (Scheme.cut s).2
  let rest := (cutAuthority hier).2
  ⟨(Scheme.cut s).1, (cutAuthority hier).1, before '?' rest, after '?' rest, []⟩

/-- Reads any text: the first hash begins the fragment, and neither scheme nor
    host reaches beyond it. -/
def read (s : Text) : Url :=
  { readPlain (before '#' s) with fragment := after '#' s }

theorem read_of_hash_notMem {s : Text} (h : '#' ∉ s) : read s = readPlain s := by
  simp [read, before_of_notMem h, after_of_notMem h, readPlain]

end Locator.Url
