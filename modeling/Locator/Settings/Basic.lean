import Locator.Download.Name
import Locator.Toml.Document

namespace Locator

/-- A style for local paths, or that of the host. -/
inductive StyleChoice where
  | auto
  | posix
  | windows
deriving DecidableEq

namespace StyleChoice

def style : StyleChoice → Style
  | auto => Style.ofHost
  | posix => .posix
  | windows => .windows

def name : StyleChoice → Text
  | auto => "auto".toList
  | posix => "posix".toList
  | windows => "windows".toList

def ofName? (s : Text) : Option StyleChoice :=
  [auto, posix, windows].find? (·.name = s)

end StyleChoice

/-- What a user may choose: the style of local paths, the directory that they
    start from, and how downloads are named. -/
structure Settings where
  choice : StyleChoice
  cwd : Option Text
  fallback : Text
  maxBytes : Nat
deriving DecidableEq

namespace Settings

def default : Settings :=
  ⟨.auto, none, Download.defaultFallback, Download.defaultMaxBytes⟩

/-- The place that the settings mean where the working directory is as given,
    when it can be read. -/
def place (settings : Settings) (cwd : Option Text) : Place :=
  Place.make settings.choice.style (settings.cwd.getD (Place.ofHostOrRoot cwd).cwd)

def naming (settings : Settings) : Download.Naming :=
  ⟨settings.choice.style, settings.maxBytes, settings.fallback⟩

def holdsNothing : Toml.Value → Bool
  | .table _ [] => true
  | .array [] => true
  | _ => false

/-- A choice is named by a string, or by the one key of a table that holds
    nothing for it. -/
def choiceOf? : Toml.Value → Option StyleChoice
  | .string s => StyleChoice.ofName? s
  | .table _ [(key, v)] => if holdsNothing v then StyleChoice.ofName? key else none
  | _ => none

def stringOf? : Toml.Value → Option Text
  | .string s => some s
  | _ => none

def sizeOf? : Toml.Value → Option Nat
  | .integer n => if 0 ≤ n then some n.toNat else none
  | _ => none

/-- An absent value leaves the default. -/
def orDefault {α : Type} (read? : Toml.Value → Option α) (default : α) (v : Option Toml.Value) : Option α :=
  v.elim (some default) read?

/-- The fallback and the length of download names, by key or by position. A
    point in time has neither. -/
def namesOf? (v : Toml.Value) : Option (Text × Nat) := do
  let (fallback, maxBytes) ←
    match v with
    | .table _ t => some (t.lookup "fallback".toList, t.lookup "max_bytes".toList)
    | .array items => some (items[0]?, items[1]?)
    | .moment _ => some (none, none)
    | _ => none
  let fallback ← orDefault stringOf? default.fallback fallback
  let maxBytes ← orDefault sizeOf? default.maxBytes maxBytes
  pure (fallback, maxBytes)

def ofTable? (t : Toml.Table) : Option Settings := do
  let choice ← orDefault choiceOf? default.choice (t.lookup "path_style".toList)
  let cwd ← orDefault (fun v => (stringOf? v).map some) default.cwd (t.lookup "cwd".toList)
  let (fallback, maxBytes) ←
    orDefault namesOf? (default.fallback, default.maxBytes) (t.lookup "filename".toList)
  pure ⟨choice, cwd, fallback, maxBytes⟩

/-- The settings in a document. Keys that mean nothing here are passed over. -/
def read? (s : Text) : Option Settings :=
  Toml.read? s >>= ofTable?

end Settings

end Locator
