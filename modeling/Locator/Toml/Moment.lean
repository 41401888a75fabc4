import Locator.Toml.Value
import Locator.Toml.Quoted

namespace Locator.Toml

open Reader

def decimal (digits : Text) : Nat :=
  digits.foldl (fun n c => n * 10 + (c.toNat - '0'.toNat)) 0

/-- A number of so many digits within bounds, as it is written. -/
def field (digits least greatest : Nat) : Reader Text := do
  let written ← times (satisfying Char.isDigit) digits
  let n := decimal written
  if least ≤ n ∧ n ≤ greatest then pure written else failure

def isLeapYear (year : Nat) : Bool :=
  year % 4 == 0 && (year % 100 != 0 || year % 400 == 0)

def daysInMonth (year month : Nat) : Nat :=
  if month = 2 then if isLeapYear year then 29 else 28
  else if month = 4 ∨ month = 6 ∨ month = 9 ∨ month = 11 then 30
  else 31

def date : Reader Text := do
  let year ← field 4 0 9999
  let _ ← char '-'
  let month ← field 2 1 12
  let _ ← char '-'
  let day ← field 2 1 (daysInMonth (decimal year) (decimal month))
  pure (year ++ '-' :: month ++ '-' :: day)

/-- A time of day. Its seconds leave room for a leap second. -/
def time : Reader Text := do
  let hour ← field 2 0 23
  let _ ← char ':'
  let minute ← field 2 0 59
  let _ ← char ':'
  let second ← field 2 0 60
  let part ← Reader.optional do
    let _ ← char '.'
    let digit ← satisfying Char.isDigit
    let digits ← span Char.isDigit
    pure (digit :: digits)
  pure (hour ++ ':' :: minute ++ ':' :: second ++ (part.map ('.' :: ·)).getD [])

/-- The distance from universal time. -/
def offset : Reader Text :=
  (do
    let _ ← char 'Z' <|> char 'z'
    pure ['Z'])
  <|> do
    let s ← char '+' <|> char '-'
    let hour ← field 2 0 23
    let _ ← char ':'
    let minute ← field 2 0 59
    pure (s :: hour ++ ':' :: minute)

/-- A date, a time of day, or both with or without an offset. -/
def moment : Reader Value :=
  (do
    let day ← date
    let rest ← Reader.optional do
      let _ ← char 'T' <|> char 't' <|> char ' '
      let clock ← time
      let off ← Reader.optional offset
      pure (clock ++ off.getD [])
    pure (.moment (day ++ (rest.map ('T' :: ·)).getD [])))
  <|> do pure (.moment (← time))

end Locator.Toml
