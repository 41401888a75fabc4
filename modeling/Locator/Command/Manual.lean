import Locator.Command.Basic

namespace Locator.Command

open Text

/-- The name that the program is called by. -/
def programName : Text := "urlnorm".toList

/-- What the program says about itself: help on one verb or on all of them, what is
    wrong with arguments that it refuses, its page of the manual, and the script
    that completes its arguments in a shell. -/
structure Manual where
  help : Option Verb → Text
  complaint : List Text → Text
  page : Text
  completions : Shell → Text

def Verb.purpose : Verb → Text
  | parse => "Show the components of a URL or path".toList
  | format => "Print a URL in canonical form".toList
  | join => "Join a base URL with further path components".toList
  | toFileUrl => "Convert a local path to a file:// URL".toList
  | toPath => "Convert a file:// URL to a local path".toList
  | nextLink => "Extract the rel=\"next\" target from a Link header".toList
  | filename => "Derive the default download filename for a URL".toList
  | completions => "Print shell completions".toList
  | man => "Print the man page (roff)".toList

def purpose : Text :=
  "urlnorm: parse, canonicalize and join mirror URLs and local paths".toList

def usage : Text :=
  "Usage: urlnorm <COMMAND>".toList

namespace Manual

/-- A manual of the purposes alone, for where no other is at hand. -/
def plain : Manual where
  help topic := line (topic.elim purpose Verb.purpose)
  complaint _ := usage
  page := line purpose ++ Verb.all.flatMap fun verb => line verb.purpose
  completions _ := Verb.all.flatMap fun verb => line verb.name

end Manual

end Locator.Command
