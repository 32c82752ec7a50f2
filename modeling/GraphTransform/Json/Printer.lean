import GraphTransform.Json.Token

/-!
# JSON printing

The text of a JSON value, without white space. In strings, the quote, the backslash and the
controls below U+0020 are escaped, by a letter where there is one, and all else stands for itself.
Where a value does not tell which number or which string it is, the text is that of one such
number or string.
-/

namespace GraphTransform

namespace Token

/-- The digit to base sixteen with a value. -/
def hexDigit (n : Nat) : Char := Nat.digitChar n

/-- The written form of a character of a string. -/
def escapeChar (c : Char) : List Char :=
  if c = '"' then ['\\', '"']
  else if c = '\\' then ['\\', '\\']
  else if c = '\x08' then ['\\', 'b']
  else if c = '\t' then ['\\', 't']
  else if c = '\n' then ['\\', 'n']
  else if c = '\x0c' then ['\\', 'f']
  else if c = '\r' then ['\\', 'r']
  else if c.toNat < 0x20 then
    ['\\', 'u', '0', '0', hexDigit (c.toNat / 16), hexDigit (c.toNat % 16)]
  else [c]

/-- The written form of an integer. -/
def intChars : Int → List Char
  | .ofNat n => Nat.toDigits 10 n
  | .negSucc n => '-' :: Nat.toDigits 10 (n + 1)

/-- The written form of a value without parts. -/
def scalarChars : Scalar → List Char
  | .null => ['n', 'u', 'l', 'l']
  | .bool true => ['t', 'r', 'u', 'e']
  | .bool false => ['f', 'a', 'l', 's', 'e']
  | .number (some n) => intChars n
  | .number none => ['0', '.', '0']
  | .string (some s) => ['"'] ++ s.toList.flatMap escapeChar ++ ['"']
  | .string none => ['"', '\\', 'u', 'd', '8', '0', '0', '"']

/-- The written form of a token. -/
def chars : Token → List Char
  | .openArray => ['[']
  | .closeArray => [']']
  | .openObject => ['\x7b']
  | .closeObject => ['\x7d']
  | .colon => [':']
  | .comma => [',']
  | .scalar s => scalarChars s

end Token

namespace Json

mutual

/-- The tokens of a value. -/
def toTokens : Json → List Token
  | .scalar s => [.scalar s]
  | .array [] => [.openArray, .closeArray]
  | .array (j :: items) => .openArray :: (j.toTokens ++ itemTokens items)
  | .object [] => [.openObject, .closeObject]
  | .object ((name, j) :: members) =>
    .openObject :: .scalar (.string name) :: .colon :: (j.toTokens ++ memberTokens members)

/-- The tokens of the further items of an array and of its end. -/
def itemTokens : List Json → List Token
  | [] => [.closeArray]
  | j :: items => .comma :: (j.toTokens ++ itemTokens items)

/-- The tokens of the further members of an object and of its end. -/
def memberTokens : List (Option String × Json) → List Token
  | [] => [.closeObject]
  | (name, j) :: members =>
    .comma :: .scalar (.string name) :: .colon :: (j.toTokens ++ memberTokens members)

end

/-- The text of a value. -/
def text (j : Json) : String := String.ofList (j.toTokens.flatMap Token.chars)

end Json

end GraphTransform
