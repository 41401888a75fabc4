import Locator.Text.Basic

namespace Locator.Utf8

def encode (s : Text) : List UInt8 :=
  s.flatMap String.utf8EncodeChar

/-- The length of a text in bytes. -/
def size : Text → Nat
  | [] => 0
  | c :: s => c.utf8Size + size s

/-- The longest part of whole characters at the front that fits into so many
    bytes. -/
def fitting : Nat → Text → Text
  | _, [] => []
  | room, c :: s => if c.utf8Size ≤ room then c :: fitting (room - c.utf8Size) s else []

/-- A character begun: how many bytes it lacks behind the next one, the least
    and the greatest that the next may be, and the value read so far. -/
structure Begun where
  lacking : Nat
  least : Nat
  greatest : Nat
  value : Nat

inductive Step where
  | char (c : Char)
  | more (b : Begun)
  | refused

/-- One byte between characters. -/
def first (b : Nat) : Step :=
  if b < 0x80 then .char (Char.ofNat b)
  else if b < 0xC2 then .refused
  else if b < 0xE0 then .more ⟨0, 0x80, 0xBF, b % 32⟩
  else if b < 0xF0 then .more ⟨1, if b = 0xE0 then 0xA0 else 0x80, if b = 0xED then 0x9F else 0xBF, b % 16⟩
  else if b < 0xF5 then .more ⟨2, if b = 0xF0 then 0x90 else 0x80, if b = 0xF4 then 0x8F else 0xBF, b % 8⟩
  else .refused

/-- One byte within a character. -/
def next (s : Begun) (b : Nat) : Step :=
  if b < s.least ∨ s.greatest < b then .refused
  else match s.lacking with
    | 0 => .char (Char.ofNat (s.value * 64 + b % 64))
    | n + 1 => .more ⟨n, 0x80, 0xBF, s.value * 64 + b % 64⟩

def replacement : Char := '\uFFFD'

def follow (step : Step) (rest : Option Begun → Text) : Text :=
  match step with
  | .char c => c :: rest none
  | .more s => rest (some s)
  | .refused => replacement :: rest none

/-- A byte that cannot go on with the character begun ends it, and is read
    anew as the first of another. -/
def decodeFrom : Option Begun → List UInt8 → Text
  | none, [] => []
  | some _, [] => [replacement]
  | none, b :: r => follow (first b.toNat) (decodeFrom · r)
  | some s, b :: r =>
    match next s b.toNat with
    | .refused => replacement :: follow (first b.toNat) (decodeFrom · r)
    | step => follow step (decodeFrom · r)

/-- Reads bytes of any kind. Each longest piece that begins a character without
    ending it, and each byte that begins none, gives one replacement character. -/
def decode (bytes : List UInt8) : Text :=
  decodeFrom none bytes

end Locator.Utf8
