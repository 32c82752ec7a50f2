import GraphTransform.Text.NonPrinting

/-!
# Quoted strings

A string constant is shown between double quotes. The quote, the backslash and the four controls
with a short name are written with a backslash; any other character that does not print is written
by the number of its code point, `\u{…}`; everything else stands for itself.
-/

namespace GraphTransform.Text

/-- The digits of a number to base sixteen, lower case, without leading zeros. -/
def hexDigits (n : Nat) : List Char := Nat.toDigits 16 n

/-- The written form of one character of a string constant. -/
def escape (c : Char) : List Char :=
  if c = '\x00' then ['\\', '0']
  else if c = '\t' then ['\\', 't']
  else if c = '\n' then ['\\', 'n']
  else if c = '\r' then ['\\', 'r']
  else if c = '"' then ['\\', '"']
  else if c = '\\' then ['\\', '\\']
  else if isNonPrinting c then ['\\', 'u', '\x7b'] ++ hexDigits c.toNat ++ ['\x7d']
  else [c]

/-- The written form of a string constant. -/
def quote (s : String) : String :=
  String.ofList (['"'] ++ s.toList.flatMap escape ++ ['"'])

example : quote "a\"b\\c'/" = "\"a\\\"b\\\\c'/\"" := by decide +kernel

example : (quote "\n\x01\u00ad\u2028é").toList =
    ['"', '\\', 'n', '\\', 'u', '\x7b', '1', '\x7d', '\\', 'u', '\x7b', 'a', 'd', '\x7d',
      '\\', 'u', '\x7b', '2', '0', '2', '8', '\x7d', 'é', '"'] := by decide +kernel

end GraphTransform.Text
