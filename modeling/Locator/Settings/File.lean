import Locator.Settings.Basic

namespace Locator.Settings

/-- Why the settings in a file were refused. -/
inductive Refusal where
  | notUtf8
  | malformed
deriving DecidableEq

namespace Refusal

def message : Refusal → Text
  | notUtf8 => "stream did not contain valid UTF-8".toList
  | malformed => "TOML parse error".toList

end Refusal

/-- A file that states the default settings. -/
def defaultText : String :=
  "path_style = \"auto\"\n\n[filename]\nfallback = \"download.bin\"\nmax_bytes = 255\n"

def ofBytes (bytes : ByteArray) : Except Refusal Settings :=
  match String.fromUTF8? bytes with
  | none => .error .notUtf8
  | some s =>
    match read? s.toList with
    | none => .error .malformed
    | some settings => .ok settings

/-- Loads the settings from a file, which is none when there is no such file.
    Then one with the default settings is made. The bytes are those of the file
    afterwards. -/
def load (file : Option ByteArray) : Except Refusal Settings × ByteArray :=
  match file with
  | none => (.ok default, defaultText.toUTF8)
  | some bytes => (ofBytes bytes, bytes)

end Locator.Settings
