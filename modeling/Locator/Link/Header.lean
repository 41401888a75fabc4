import Locator.Text.Blank

namespace Locator

open Text

/-- A link of a header: its target, and its parameters in order. -/
structure Link where
  target : Text
  parameters : List (Text × Text)

namespace Link

/-- A target between angles, which is not empty, and the text behind the blanks
    that follow it. -/
def target? (s : Text) : Option (Text × Text) :=
  match trimLeft s with
  | '<' :: r =>
    if '>' ∈ r ∧ before '>' r ≠ [] then some (before '>' r, trimLeft (after '>' r)) else none
  | _ => none

def inKey (c : Char) : Bool :=
  c != ';' && c != '=' && !isBlank c

def inToken (c : Char) : Bool :=
  c != ';' && c != ',' && !isBlank c

def quotedValue? : Text → Option (Text × Text)
  | '"' :: r => if '"' ∈ r ∧ before '"' r ≠ [] then some (before '"' r, after '"' r) else none
  | _ => none

def token? (s : Text) : Option (Text × Text) :=
  if s.takeWhile inToken = [] then none else some (s.takeWhile inToken, s.dropWhile inToken)

/-- A key and a value behind a semicolon. A quote that opens no quoted value is
    part of a token. -/
def parameter? : Text → Option ((Text × Text) × Text)
  | ';' :: s =>
    let s := trimLeft s
    let key := s.takeWhile inKey
    match key, trimLeft (s.dropWhile inKey) with
    | _ :: _, '=' :: r =>
      ((quotedValue? (trimLeft r)).or (token? (trimLeft r))).map
        fun (value, rest) => ((key, value), trimLeft rest)
    | _, _ => none
  | _ => none

/-- The parameters at the front, as far as they are well formed, and the text
    behind them. -/
def takeParameters (s : Text) : List (Text × Text) × Text :=
  match parameter? s with
  | none => ([], s)
  | some (p, rest) =>
    if rest.length < s.length then
      let more := takeParameters rest
      (p :: more.1, more.2)
    else ([], s)
termination_by s.length

/-- The links of a header value, as far as it is well formed. -/
def list (s : Text) : List Link :=
  match target? s with
  | none => []
  | some (target, rest) =>
    let taken := takeParameters rest
    ⟨target, taken.1⟩ ::
      match taken.2 with
      | ',' :: more => if more.length < s.length then list more else []
      | _ => []
termination_by s.length

def isNext (link : Link) : Bool :=
  link.parameters.contains ("rel".toList, "next".toList)

/-- The target of the first link to the next page. -/
def next? (value : Text) : Option Text :=
  ((list value).find? isNext).map target

/-- The value of a header line that is a link header, whatever the case of its
    name. -/
def headerValue? (row : Text) : Option Text :=
  let row := trim row
  if ':' ∈ row ∧ lower (trim (before ':' row)) = "link".toList then some (trim (after ':' row)) else none

/-- The target of the first link to the next page among header lines. -/
def nextInHeaders? (rows : List Text) : Option Text :=
  rows.findSome? fun row => (headerValue? row).bind next?

end Link

end Locator
