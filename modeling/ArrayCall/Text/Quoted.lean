import ArrayCall.Text.Extender
import ArrayCall.Text.Hidden

/-!
# Quoted text

A text in double quotes on one line. Quotes, backslashes and the characters that could
not be seen or would join another one are written as escapes, and everything else as it
is.
-/

namespace ArrayCall.Text

def hexNumeral (n : Nat) : String := String.ofList (Nat.toDigits 16 n)

/-- How a character is written between quotes. A character that is hidden or an extender
and has no letter of its own is written by its code point. -/
def escape (c : Char) : String :=
  if c = '"' then "\\\""
  else if c = '\\' then "\\\\"
  else if c = '\n' then "\\n"
  else if c = '\r' then "\\r"
  else if c = '\t' then "\\t"
  else if c.toNat = 0 then "\\0"
  else if isExtender c || isHidden c then "\\u\x7b" ++ hexNumeral c.toNat ++ "\x7d"
  else c.toString

def quote (s : String) : String := "\"" ++ String.join (s.toList.map escape) ++ "\""

end ArrayCall.Text
