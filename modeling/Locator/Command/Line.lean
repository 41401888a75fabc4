import Locator.Command.Basic

namespace Locator.Command

open Text

/-- What an argument of a verb is, by its form. A single dash is a word. -/
inductive Argument where
  | word
  | onlyWords
  | help
  | switch (name : Text)
  | option (name : Text)
  | optionWith (name value : Text)
  | unknown

def helpName : Text := "help".toList

/-- A name behind two dashes: of help, or of an option that is spelled out and
    has a value just when it takes one. -/
def Argument.ofLong (verb : Verb) (long : Text) : Argument :=
  let name := before '=' long
  if '=' ∈ long then
    if verb.options.contains name then .optionWith name (after '=' long) else .unknown
  else if long = helpName then .help
  else if verb.switches.contains long then .switch long
  else if verb.options.contains long then .option long
  else .unknown

def Argument.of (verb : Verb) : Text → Argument
  | ['-'] => .word
  | ['-', '-'] => .onlyWords
  | '-' :: '-' :: long => .ofLong verb long
  | '-' :: 'h' :: _ => .help
  | '-' :: _ => .unknown
  | _ => .word

/-- The arguments of a verb, sorted. -/
structure Given where
  words : List Text
  switches : List Text
  options : List (Text × Text)

namespace Given

/-- One more word, where there is room for it and it says something. -/
def addWord? (verb : Verb) (g : Given) (word : Text) : Option Given :=
  if verb.room.all (g.words.length < ·) ∧ (verb = .completions → (Shell.ofName? word).isSome) then
    some { g with words := g.words ++ [word] }
  else none

/-- A switch is given once. -/
def addSwitch? (g : Given) (name : Text) : Option Given :=
  if g.switches.contains name then none else some { g with switches := name :: g.switches }

/-- An option is given once, with a value that is not empty. -/
def addOption? (g : Given) (name value : Text) : Option Given :=
  if value = [] ∨ (g.options.lookup name).isSome then none
  else some { g with options := (name, value) :: g.options }

end Given

/-- What comes of reading arguments. Help is given as soon as it is asked for,
    unless a fault stands in front. -/
inductive Reading (α : Type) where
  | done (a : α)
  | help (topic : Option Verb)
  | refused

def addWords (verb : Verb) (g : Given) (words : List Text) : Reading Given :=
  match words.foldlM (Given.addWord? verb) g with
  | some g => .done g
  | none => .refused

/-- Reads the arguments of a verb from left to right. -/
def gather (verb : Verb) (g : Given) : List Text → Reading Given
  | [] => .done g
  | arg :: rest =>
    match Argument.of verb arg with
    | .word => (g.addWord? verb arg).elim .refused (gather verb · rest)
    | .onlyWords => addWords verb g rest
    | .help => .help (some verb)
    | .switch name => (g.addSwitch? name).elim .refused (gather verb · rest)
    | .optionWith name value => (g.addOption? name value).elim .refused (gather verb · rest)
    | .option name =>
      match rest with
      | [] => .refused
      | value :: rest =>
        match Argument.of verb value with
        | .word => (g.addOption? name value).elim .refused (gather verb · rest)
        | _ => .refused
    | .unknown => .refused

/-- The command that a verb and its arguments make, when none is missing or in
    the way of another. -/
def ofGiven? (verb : Verb) (g : Given) : Option Command :=
  match verb, g.words, g.options.lookup "headers".toList with
  | .parse, [s], _ => some (.showParts s)
  | .format, [s], _ => some (.canonical s)
  | .join, base :: components, _ =>
    some (.join (if g.switches.contains "href".toList then .follow else .append) base components)
  | .toFileUrl, [path], _ => some (.fileUrl path)
  | .toPath, [url], _ => some (.localPath url)
  | .nextLink, [value], none => some (.nextLink value)
  | .nextLink, [], some path => some (.nextLinkInFile path)
  | .filename, [url], _ => some (.downloadName url)
  | .completions, [shell], _ => (Shell.ofName? shell).map .completions
  | .man, [], _ => some .manual
  | _, _, _ => none

/-- Help may be asked for on one verb. -/
def helpOn : List Text → Reading Command
  | [] => .help none
  | [topic] =>
    if topic = helpName then .help none
    else match Verb.ofName? topic with
      | some verb => .help (some verb)
      | none => .refused
  | _ => .refused

/-- The command in a list of arguments. -/
def ofArgs : List Text → Reading Command
  | [] => .refused
  | first :: rest =>
    if first = helpName then helpOn rest
    else match Verb.ofName? first with
      | some verb =>
        match gather verb ⟨[], [], []⟩ rest with
        | .done g => (ofGiven? verb g).elim .refused .done
        | .help topic => .help topic
        | .refused => .refused
      | none =>
        match first with
        | '-' :: 'h' :: _ => .help none
        | '-' :: '-' :: long => if long = helpName then .help none else .refused
        | _ => .refused

end Locator.Command
