import Locator.Text.Percent
import Locator.Text.Reader

namespace Locator.Toml

open Reader

def isSpace (c : Char) : Bool :=
  c == ' ' || c == '\t'

/-- A character that may stand in a comment: a tab, or no control of ASCII. -/
def isVisible (c : Char) : Bool :=
  c == '\t' || (' ' ≤ c && c != '\x7f')

/-- A line ends with a line feed, alone or behind a carriage return. -/
def newline : Reader Unit :=
  (do let _ ← char '\n') <|> do let _ ← word "\r\n".toList

/-- The character of a code point given by so many hexadecimal digits. -/
def codePoint (digits : Nat) : Reader Char := do
  let written ← times (satisfying fun c => (Percent.hexValue? c).isSome) digits
  let n := written.foldl (fun n c => n * 16 + (Percent.hexValue? c).getD 0) 0
  if n.isValidChar then pure (Char.ofNat n) else failure

def escapeOf? : Char → Option Char
  | 'b' => some '\x08'
  | 'f' => some '\x0c'
  | 'n' => some '\n'
  | 'r' => some '\r'
  | 't' => some '\t'
  | '"' => some '"'
  | '\\' => some '\\'
  | _ => none

def escape : Reader Char := do
  let _ ← char '\\'
  let c ← satisfying fun _ => true
  match escapeOf? c with
  | some d => pure d
  | none => if c = 'u' then codePoint 4 else if c = 'U' then codePoint 8 else failure

def isBasic (c : Char) : Bool :=
  isVisible c && c != '"' && c != '\\'

def isLiteral (c : Char) : Bool :=
  isVisible c && c != '\''

def basicString : Reader Text := do
  let _ ← char '"'
  let pieces ← many (spanOf isBasic <|> do pure [← escape])
  let _ ← char '"'
  pure pieces.flatten

def literalString : Reader Text := do
  let _ ← char '\''
  let s ← span isLiteral
  let _ ← char '\''
  pure s

/-- A backslash at the end of a line joins it to the next text, across blank
    lines. -/
def continuation : Reader Text := do
  let _ ← char '\\'
  let _ ← span isSpace
  newline
  let _ ← many ((do let _ ← spanOf isSpace) <|> newline)
  pure []

/-- One quote or two that do not close a string of several lines. -/
def fewQuotes (quote : Char) : Reader Text := fun s =>
  let quotes := s.takeWhile (· == quote)
  if quotes.length = 1 ∨ quotes.length = 2 then some (quotes, s.dropWhile (· == quote)) else none

/-- The three quotes that close a string of several lines, with one or two more
    in front of them that belong to it. -/
def closing (quote : Char) : Reader Text := fun s =>
  let quotes := s.takeWhile (· == quote)
  if 3 ≤ quotes.length ∧ quotes.length ≤ 5 then some (quotes.drop 3, s.dropWhile (· == quote)) else none

/-- A string of several lines between tripled quotes. A line end right behind
    the first ones is dropped, and every other becomes a line feed. -/
def longString (quote : Char) (piece : Reader Text) : Reader Text := do
  let _ ← word [quote, quote, quote]
  let _ ← Reader.optional newline
  let pieces ← many (piece <|> (do newline; pure ['\n']) <|> fewQuotes quote)
  let last ← closing quote
  pure (pieces.flatten ++ last)

def longBasicString : Reader Text :=
  longString '"' (spanOf isBasic <|> continuation <|> do pure [← escape])

def longLiteralString : Reader Text :=
  longString '\'' (spanOf isLiteral)

def string : Reader Text :=
  longBasicString <|> basicString <|> longLiteralString <|> literalString

end Locator.Toml
