import Locator.Text.Basic

namespace Locator

/-- Takes what it reads off the front of a text, or refuses the text. -/
abbrev Reader := StateT Text Option

namespace Reader

variable {α β : Type}

def satisfying (p : Char → Bool) : Reader Char
  | c :: s => if p c then some (c, s) else none
  | [] => none

def char (c : Char) : Reader Char :=
  satisfying (· == c)

def word (w : Text) : Reader Text := fun s =>
  if w <+: s then some (w, s.drop w.length) else none

/-- The longest run of characters of a kind, which may be empty. -/
def span (p : Char → Bool) : Reader Text := fun s =>
  some (s.takeWhile p, s.dropWhile p)

/-- A run of at least one character. -/
def spanOf (p : Char → Bool) : Reader Text := fun s =>
  if s.takeWhile p = [] then none else some (s.takeWhile p, s.dropWhile p)

def ending : Reader Unit
  | [] => some ((), [])
  | _ => none

def optional (item : Reader α) : Reader (Option α) :=
  some <$> item <|> pure none

/-- Reads items for as long as they take something off the text. -/
def takeMany (item : Reader α) (s : Text) : List α × Text :=
  match item s with
  | none => ([], s)
  | some (a, rest) =>
    if rest.length < s.length then
      let more := takeMany item rest
      (a :: more.1, more.2)
    else ([], s)
termination_by s.length

def many (item : Reader α) : Reader (List α) := fun s =>
  some (takeMany item s)

/-- One item or more with a mark between any two. -/
def separated (mark : Reader β) (item : Reader α) : Reader (List α) := do
  let first ← item
  let rest ← many (mark *> item)
  pure (first :: rest)

/-- Exactly so many items. -/
def times (item : Reader α) : Nat → Reader (List α)
  | 0 => pure []
  | n + 1 => do
    let first ← item
    let rest ← times item n
    pure (first :: rest)

end Reader

end Locator
