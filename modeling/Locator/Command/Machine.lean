import Locator.Text.Basic

namespace Locator.Command

/-- Why a file could not be read or made. -/
inductive FileFault where
  | missing
  | denied
  | notDirectory
  | isDirectory
  | nameTooLong
  | other (reason : Text)
deriving DecidableEq

namespace FileFault

def message : FileFault → Text
  | missing => "No such file or directory (os error 2)".toList
  | denied => "Permission denied (os error 13)".toList
  | notDirectory => "Not a directory (os error 20)".toList
  | isDirectory => "Is a directory (os error 21)".toList
  | nameTooLong => "File name too long (os error 36)".toList
  | other reason => reason

end FileFault

/-- All that a command does to the machine it runs on: it learns the working
    directory when that can be read, reads the settings file when there is one,
    makes it, reads any other file, and prints. -/
structure Machine (m : Type → Type) where
  cwd : m (Option Text)
  settingsFile : m (Except FileFault (Option ByteArray))
  makeSettingsFile : ByteArray → m (Except FileFault Unit)
  read : Text → m (Except FileFault ByteArray)
  print : Text → m Unit

/-- What the paths of a machine lead to, as far as that hangs on its settings
    file: a path may lead to this file, or through its directory. -/
structure Files where
  contents : Option ByteArray → Text → Except FileFault ByteArray

/-- Files that have nothing to do with the settings file. -/
instance : Coe (Text → Except FileFault ByteArray) Files :=
  ⟨fun contents => ⟨fun _ => contents⟩⟩

/-- A machine at rest. -/
structure Host where
  cwd : Option Text
  settingsFile : Option ByteArray
  files : Files

/-- A machine at work, and what has been printed on it. -/
structure World extends Host where
  output : Text

namespace World

def machine : Machine (StateM World) where
  cwd w := (w.cwd, w)
  settingsFile w := (.ok w.settingsFile, w)
  makeSettingsFile bytes w := (.ok (), { w with settingsFile := some bytes })
  read path w := (w.files.contents w.settingsFile path, w)
  print s w := ((), { w with output := w.output ++ s })

end World

end Locator.Command
