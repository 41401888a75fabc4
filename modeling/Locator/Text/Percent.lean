import Locator.Text.Utf8

namespace Locator.Percent

def hexDigit (n : Nat) : Char :=
  Char.ofNat (if n < 10 then 0x30 + n else 0x37 + n)

/-- The value of a hexadecimal digit of either case. -/
def hexValue? (c : Char) : Option Nat :=
  if '0' ≤ c ∧ c ≤ '9' then some (c.toNat - 0x30)
  else if 'a' ≤ c ∧ c ≤ 'f' then some (c.toNat - 0x57)
  else if 'A' ≤ c ∧ c ≤ 'F' then some (c.toNat - 0x37)
  else none

def byte (b : UInt8) : Text :=
  ['%', hexDigit (b.toNat / 16), hexDigit (b.toNat % 16)]

/-- The text with each character of the set written as its bytes. -/
def escape (inSet : Char → Bool) (s : Text) : Text :=
  s.flatMap fun c => if inSet c then (String.utf8EncodeChar c).flatMap byte else [c]

/-- The bytes that a text stands for: a sign that two digits do not follow
    stands for itself. -/
def bytes : Text → List UInt8
  | [] => []
  | '%' :: h :: l :: s =>
    match hexValue? h, hexValue? l with
    | some high, some low => UInt8.ofNat (high * 16 + low) :: bytes s
    | _, _ => 0x25 :: bytes (h :: l :: s)
  | c :: s => String.utf8EncodeChar c ++ bytes s

def unescape (s : Text) : Text :=
  Utf8.decode (bytes s)

end Locator.Percent
