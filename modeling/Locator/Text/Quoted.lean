import Locator.Text.Hidden

namespace Locator.Text

/-- Named escapes for the quote, the backslash and the common controls, a
    hexadecimal one for what else would not show. -/
def escaped (c : Char) : Text :=
  if c = '"' then "\\\"".toList
  else if c = '\\' then "\\\\".toList
  else if c = '\n' then "\\n".toList
  else if c = '\r' then "\\r".toList
  else if c = '\t' then "\\t".toList
  else if c = '\x00' then "\\0".toList
  else if isHidden c then "\\u\x7b".toList ++ Nat.toDigits 16 c.toNat ++ "\x7d".toList
  else [c]

/-- A text in double quotes for a message. -/
def quoted (s : Text) : Text :=
  '"' :: s.flatMap escaped ++ ['"']

end Locator.Text
