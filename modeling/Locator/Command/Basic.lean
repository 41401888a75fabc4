import Locator.Join.Basic

namespace Locator.Command

/-- The words that name what is to be done. -/
inductive Verb where
  | parse
  | format
  | join
  | toFileUrl
  | toPath
  | nextLink
  | filename
  | completions
  | man
deriving DecidableEq

namespace Verb

def all : List Verb :=
  [parse, format, join, toFileUrl, toPath, nextLink, filename, completions, man]

def name : Verb → Text
  | parse => "parse".toList
  | format => "format".toList
  | join => "join".toList
  | toFileUrl => "to-file-url".toList
  | toPath => "to-path".toList
  | nextLink => "next-link".toList
  | filename => "filename".toList
  | completions => "completions".toList
  | man => "man".toList

def ofName? (s : Text) : Option Verb :=
  all.find? (·.name = s)

/-- The options that take no value. -/
def switches : Verb → List Text
  | join => ["href".toList]
  | _ => []

/-- The options that take a value. -/
def options : Verb → List Text
  | nextLink => ["headers".toList]
  | _ => []

/-- How many words may follow: none where there is no limit. -/
def room : Verb → Option Nat
  | join => none
  | man => some 0
  | _ => some 1

end Verb

inductive Shell where
  | bash
  | elvish
  | fish
  | powershell
  | zsh
deriving DecidableEq

namespace Shell

def name : Shell → Text
  | bash => "bash".toList
  | elvish => "elvish".toList
  | fish => "fish".toList
  | powershell => "powershell".toList
  | zsh => "zsh".toList

def ofName? (s : Text) : Option Shell :=
  [bash, elvish, fish, powershell, zsh].find? (·.name = s)

end Shell

end Locator.Command

namespace Locator

/-- One thing to do. -/
inductive Command where
  | showParts (s : Text)
  | canonical (s : Text)
  | join (mode : Join.Mode) (base : Text) (components : List Text)
  | fileUrl (path : Text)
  | localPath (url : Text)
  | nextLink (value : Text)
  | nextLinkInFile (path : Text)
  | downloadName (url : Text)
  | completions (shell : Command.Shell)
  | manual
deriving DecidableEq

end Locator
