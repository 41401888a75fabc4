import Locator.Local.Place
import Locator.Text.Utf8
import Locator.Url.Printer

namespace Locator.Download

open Text

def isControl (c : Char) : Bool :=
  c.toNat < 0x20 || (0x7F ≤ c.toNat && c.toNat ≤ 0x9F)

/-- The characters that a file name cannot hold. -/
def isReserved (style : Style) (c : Char) : Bool :=
  c == '/' || isControl c || (style == .windows && "\\:*?\"<>|".toList.contains c)

/-- The name with a low line for each reserved character, cut behind the last
    character that fits. -/
def clean (style : Style) (maxBytes : Nat) (name : Text) : Text :=
  Utf8.fitting maxBytes (name.map fun c => if isReserved style c then '_' else c)

/-- The last piece of the path with query and fragment, which tell downloads of
    one file apart. -/
def rawName (url : Text) : Text :=
  let u := Url.read url
  Path.lastPiece u.path ++ marked '?' u.query ++ marked '#' u.fragment

def defaultFallback : Text := "download.bin".toList

/-- How long a name may be on the common file systems. -/
def defaultMaxBytes : Nat := 255

/-- The name of a download under any way of cleaning names. It is not hidden,
    and the fallback stands in for an empty one. -/
def nameWith (tidy : Text → Text) (fallback url : Text) : Text :=
  match tidy (rawName url) with
  | [] => fallback
  | first :: rest => if first = '.' then '_' :: rest else first :: rest

/-- How download names are made. -/
structure Naming where
  style : Style
  maxBytes : Nat
  fallback : Text
deriving DecidableEq

def Naming.ofHost : Naming :=
  ⟨Style.ofHost, defaultMaxBytes, defaultFallback⟩

def Naming.name (naming : Naming) (url : Text) : Text :=
  nameWith (clean naming.style naming.maxBytes) naming.fallback url

end Locator.Download
