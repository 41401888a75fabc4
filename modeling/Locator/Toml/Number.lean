import Locator.Toml.Value
import Locator.Toml.Quoted

namespace Locator.Toml

open Reader

/-- Digits of a kind, with low lines between two of them. -/
def grouped (isDigit : Char → Bool) : Reader Text := do
  let first ← satisfying isDigit
  let rest ← many (satisfying isDigit <|> char '_' *> satisfying isDigit)
  pure (first :: rest)

def sign : Reader Text :=
  word ['+'] <|> word ['-'] <|> pure []

/-- Decimal digits that begin with zero only when that is all. -/
def wholeDigits : Reader Text :=
  (do
    let first ← satisfying fun c => '1' ≤ c && c ≤ '9'
    let rest ← many (satisfying Char.isDigit <|> char '_' *> satisfying Char.isDigit)
    pure (first :: rest))
  <|> do pure [← char '0']

def numeral (base : Nat) (digits : Text) : Nat :=
  digits.foldl (fun n c => n * base + (Percent.hexValue? c).getD 0) 0

/-- An integer of 64 bits. -/
def integerOf (n : Int) : Reader Value :=
  if -9223372036854775808 ≤ n ∧ n ≤ 9223372036854775807 then pure (.integer n) else failure

def signed (sign : Text) (n : Nat) : Int :=
  if sign = ['-'] then -(n : Int) else n

def basedInteger (mark : Char) (base : Nat) : Reader Value := do
  let _ ← word ['0', mark]
  let digits ← grouped fun c => (Percent.hexValue? c).any (· < base)
  integerOf (numeral base digits)

def integer : Reader Value :=
  basedInteger 'x' 16 <|> basedInteger 'o' 8 <|> basedInteger 'b' 2 <|> do
    let s ← sign
    let digits ← wholeDigits
    integerOf (signed s (numeral 10 digits))

/-- Numbers from here on round to infinity in double precision: half way from
    the greatest finite one to the power of two above it. -/
def tooLarge : Nat :=
  Nat.pow 2 1024 - Nat.pow 2 970

/-- Whether digits times a power of ten are a number beyond double precision.
    Far from the limit their count decides it. -/
def overflows (digits : Text) (exponent : Int) : Bool :=
  let n := numeral 10 digits
  let scale : Int := (Nat.toDigits 10 n).length + exponent
  if n = 0 ∨ scale < 300 then false
  else if 320 < scale then true
  else if 0 ≤ exponent then tooLarge ≤ n * Nat.pow 10 exponent.toNat
  else tooLarge * Nat.pow 10 (-exponent).toNat ≤ n

def fraction : Reader Text :=
  char '.' *> grouped Char.isDigit

def exponent : Reader (Text × Text) := do
  let _ ← char 'e' <|> char 'E'
  let s ← sign
  let digits ← grouped Char.isDigit
  pure (s, digits)

/-- A number with a fraction, an exponent or both. One that is too large is
    refused unless it is negative. -/
def decimalFloat : Reader Value := do
  let s ← sign
  let whole ← wholeDigits
  let frac ← Reader.optional fraction
  let exp ← Reader.optional exponent
  if frac.isNone && exp.isNone then failure
  let places := frac.getD []
  let (expSign, expDigits) := exp.getD ([], ['0'])
  let shift := signed expSign (numeral 10 expDigits) - places.length
  if s ≠ ['-'] ∧ overflows (whole ++ places) shift then failure
  let point := if frac.isSome then '.' :: places else []
  let power := if exp.isSome then 'e' :: expSign ++ expDigits else []
  pure (.float (s ++ whole ++ point ++ power))

def specialFloat : Reader Value := do
  let s ← sign
  let w ← word "inf".toList <|> word "nan".toList
  pure (.float (s ++ w))

def float : Reader Value :=
  decimalFloat <|> specialFloat

end Locator.Toml
