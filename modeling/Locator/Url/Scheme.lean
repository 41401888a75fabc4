import Locator.Text.Basic

namespace Locator.Scheme

open Text

def file : Text := "file".toList

/-- The scheme whose host is a bucket: there the first name of a path and the
    host are interchangeable. -/
def bucket : Text := "s3".toList

/-- The schemes that make an address absolute whatever follows them. -/
def known : List Text :=
  [file, "http".toList, "https".toList, "ftp".toList, bucket, "gs".toList, "ssh".toList, "git".toList]

def recognized (scheme : Text) : Bool :=
  known.contains scheme

def isTail (c : Char) : Bool :=
  c.isAlphanum || c == '+' || c == '-' || c == '.'

/-- A letter and at least one more character: a single letter in front of a
    colon is a drive. -/
def isName : Text → Bool
  | first :: second :: rest => first.isAlpha && (second :: rest).all isTail
  | _ => false

/-- The scheme, in lower case, and the text behind its colon. A text without a
    scheme is left whole. -/
def cut (s : Text) : Text × Text :=
  if ':' ∈ s ∧ isName (before ':' s) then (lower (before ':' s), after ':' s) else ([], s)

end Locator.Scheme
