import Locator.Command.Line
import Locator.Command.Machine
import Locator.Command.Manual
import Locator.Link.Header
import Locator.Local.FileUrl
import Locator.Settings.File

namespace Locator.Command

open Text

/-- Why a command failed. -/
inductive Failure where
  | settingsFile (fault : FileFault)
  | settings (refusal : Settings.Refusal)
  | address (fault : Fault)
  | file (path : Text) (fault : FileFault)
  | fileNotUtf8 (path : Text)
deriving DecidableEq

namespace Failure

def message : Failure → Text
  | settingsFile fault => fault.message
  | settings refusal => refusal.message
  | address fault => fault.message
  | file path fault => "read ".toList ++ path ++ ": ".toList ++ fault.message
  | fileNotUtf8 path => "read ".toList ++ path ++ ": ".toList ++ Settings.Refusal.notUtf8.message

end Failure

/-- The parts of an address, one to a line. -/
def parts (u : Url) : List Text :=
  ["scheme:     ".toList ++ u.scheme,
    "authority:  ".toList ++ u.authority,
    "path:       ".toList ++ u.path,
    "query:      ".toList ++ u.query,
    "fragment:   ".toList ++ u.fragment,
    "recognized: ".toList ++ if u.recognized then "true".toList else "false".toList]

section

variable {m : Type → Type} [Monad m]

/-- An action on a file, whose fault is a failure. -/
def orFail {α : Type} (failure : FileFault → Failure) (action : m (Except FileFault α)) : ExceptT Failure m α := do
  match ← action with
  | .ok a => return a
  | .error fault => throw (failure fault)

variable (machine : Machine m)

def printLine (s : Text) : ExceptT Failure m Unit :=
  machine.print (line s)

/-- Prints what was found on a line of its own. -/
def printFound (found : Option Text) : ExceptT Failure m Unit :=
  match found with
  | some s => printLine machine s
  | none => pure ()

/-- The place that the settings mean on this machine. -/
def place (settings : Settings) : ExceptT Failure m Place := do
  return settings.place (← machine.cwd)

/-- The text of a file. -/
def readText (path : Text) : ExceptT Failure m Text := do
  let bytes ← orFail (.file path) (machine.read path)
  match String.fromUTF8? bytes with
  | some s => return s.toList
  | none => throw (.fileNotUtf8 path)

/-- The settings in their file, which is made first when it is missing. One that is
    there but cannot be read is left alone. -/
def loadSettings : ExceptT Failure m Settings := do
  let file ← orFail .settingsFile machine.settingsFile
  let (loaded, bytes) := Settings.load file
  if file.isNone then orFail .settingsFile (machine.makeSettingsFile bytes)
  match loaded with
  | .ok settings => return settings
  | .error refusal => throw (.settings refusal)

/-- Carries a command out under settings that were loaded. -/
def perform (manual : Manual) (settings : Settings) : Command → ExceptT Failure m Unit
  | .showParts s => forM (parts (Url.read s)) (printLine machine)
  | .canonical s => printLine machine (Url.canonical s)
  | .join mode base components => do
    printLine machine (Locator.join (← place machine settings) mode base components)
  | .fileUrl path => do
    printLine machine ((← place machine settings).fileUrl path)
  | .localPath url => do
    match (← place machine settings).requireLocalPath url with
    | .ok path => printLine machine path
    | .error fault => throw (.address fault)
  | .nextLink value => printFound machine (Link.next? value)
  | .nextLinkInFile path => do
    let s ← readText machine path
    printFound machine (Link.nextInHeaders? (s.splitOn '\n'))
  | .downloadName url => printLine machine (settings.naming.name url)
  | .completions shell => machine.print (manual.completions shell)
  | .manual => machine.print manual.page

/-- The end of a run: its status, and its complaint if it has one. -/
structure Ending where
  status : Nat
  complaint : Option Text

/-- The program. Arguments are read before the settings file is looked at, and
    that is loaded before the command is carried out, which may not need it. -/
def program (manual : Manual) (args : List Text) : m Ending :=
  match ofArgs args with
  | .refused => pure ⟨2, some (manual.complaint args)⟩
  | .help topic => do
    machine.print (manual.help topic)
    return ⟨0, none⟩
  | .done command => do
    match ← (loadSettings machine >>= fun settings => perform machine manual settings command).run with
    | .ok () => return ⟨0, none⟩
    | .error failure => return ⟨1, some failure.message⟩

end

/-- What a run leaves behind: its status, its output, its complaint if any, and
    the settings file. -/
structure Outcome where
  status : Nat
  output : Text
  complaint : Option Text
  settingsFile : Option ByteArray

/-- Runs the program on a machine at rest. -/
def run (host : Host) (args : List Text) (manual : Manual := .plain) : Outcome :=
  let (ending, world) := (program World.machine manual args).run ⟨host, []⟩
  ⟨ending.status, world.output, ending.complaint, world.settingsFile⟩

end Locator.Command
