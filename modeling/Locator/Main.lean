import Locator.Command.Run

namespace Locator.Main

open Command

/-- The directory of the settings file. -/
def settingsDirectory : IO String := do
  let name := String.ofList programName
  let home := (← IO.getEnv "HOME").getD "/"
  match ← IO.getEnv "XDG_CONFIG_HOME" with
  | some dir => return (if dir.startsWith "/" then dir else home ++ "/.config") ++ "/" ++ name
  | none => return home ++ "/.config/" ++ name

/-- The system gives some codes with their sign changed. -/
def fileFault : IO.Error → FileFault
  | .noFileOrDirectory .. => .missing
  | .permissionDenied .. => .denied
  | .inappropriateType _ 21 _ => .isDirectory
  | .inappropriateType .. => .notDirectory
  | e@(.invalidArgument _ code _) => if code == 36 || code + 36 == 0 then .nameTooLong else .other (toString e).toList
  | e => .other (toString e).toList

/-- An action on a file, or why it could not be done. -/
def attempt {α : Type} (action : IO α) : IO (Except FileFault α) := do
  try
    return .ok (← action)
  catch e =>
    return .error (fileFault e)

/-- This machine, with the directory of its settings file. -/
def machine (directory : String) : Machine IO where
  cwd := do
    try
      return some (← IO.currentDir).toString.toList
    catch _ =>
      return none
  settingsFile := do
    match ← attempt (IO.FS.readBinFile (directory ++ "/config.toml")) with
    | .ok bytes => return .ok (some bytes)
    | .error .missing => return .ok none
    | .error fault => return .error fault
  makeSettingsFile bytes := attempt do
    IO.FS.createDirAll directory
    IO.FS.writeBinFile (directory ++ "/config.toml") bytes
  read path := attempt (IO.FS.readBinFile (String.ofList path))
  print s := do
    let out ← IO.getStdout
    out.putStr (String.ofList s)
    out.flush

/-- Runs the program on this machine. -/
def start (args : List Text) : IO UInt32 := do
  let ending ← program (machine (← settingsDirectory)) .plain args
  if let some complaint := ending.complaint then
    let lead := if ending.status == 1 then String.ofList programName ++ " error: " else "error: "
    IO.eprintln (lead ++ String.ofList complaint)
  return ending.status.toUInt32

end Locator.Main

def main (args : List String) : IO UInt32 :=
  Locator.Main.start (args.map String.toList)
