import GraphTransform.Json

/-!
# JSON tokens

A JSON text is a sequence of tokens with white space between them: brackets, colons, commas, and
values without parts. White space is the space, the tab, the line feed and the carriage return.
Numbers have no leading zeros and no plus sign; strings have no raw controls. Each token is read as
far as it reaches.
-/

namespace GraphTransform

/-- A token of a JSON text. -/
inductive Token where
  | openArray
  | closeArray
  | openObject
  | closeObject
  | colon
  | comma
  /-- A value without parts. -/
  | scalar (value : Scalar)
deriving DecidableEq

namespace Token

/-- Whether a character is white space. -/
def isBlank (c : Char) : Bool := c = ' ' || c = '\t' || c = '\n' || c = '\r'

/-! ### Strings -/

/-- The value of a digit to base sixteen. -/
def hexValue? (c : Char) : Option Nat :=
  if '0' ≤ c ∧ c ≤ '9' then some (c.toNat - '0'.toNat)
  else if 'a' ≤ c ∧ c ≤ 'f' then some (c.toNat - 'a'.toNat + 10)
  else if 'A' ≤ c ∧ c ≤ 'F' then some (c.toNat - 'A'.toNat + 10)
  else none

/-- The number that four digits to base sixteen stand for. -/
def hexNumber? (a b c d : Char) : Option Nat := do
  let a ← hexValue? a
  let b ← hexValue? b
  let c ← hexValue? c
  let d ← hexValue? d
  return ((a * 16 + b) * 16 + c) * 16 + d

/-- The code of the character that a backslash and a letter stand for. -/
def escaped? : Char → Option Nat
  | '"' => some 0x22
  | '\\' => some 0x5c
  | '/' => some 0x2f
  | 'b' => some 0x08
  | 'f' => some 0x0c
  | 'n' => some 0x0a
  | 'r' => some 0x0d
  | 't' => some 0x09
  | _ => none

/-- Read a string after its opening quote: the codes up to the closing quote, with those that
escapes name as they are, and the characters after it. -/
def scanString : List Char → Option (List Nat × List Char)
  | [] => none
  | '"' :: rest => some ([], rest)
  | '\\' :: 'u' :: a :: b :: c :: d :: rest => do
    let code ← hexNumber? a b c d
    let (codes, rest) ← scanString rest
    return (code :: codes, rest)
  | '\\' :: c :: rest => do
    let code ← escaped? c
    let (codes, rest) ← scanString rest
    return (code :: codes, rest)
  | c :: rest =>
    if c.toNat < 0x20 ∨ c = '\\' then
      none
    else do
      let (codes, rest) ← scanString rest
      return (c.toNat :: codes, rest)

/-- Whether a code is the first half of a surrogate pair. -/
def isHighSurrogate (code : Nat) : Bool := 0xd800 ≤ code && code < 0xdc00

/-- Whether a code is the second half of a surrogate pair. -/
def isLowSurrogate (code : Nat) : Bool := 0xdc00 ≤ code && code < 0xe000

/-- The characters that codes stand for, unless a half of a surrogate pair is on its own. -/
def joinSurrogates : List Nat → Option (List Char)
  | [] => some []
  | code :: rest =>
    if isLowSurrogate code then
      none
    else if isHighSurrogate code then
      match rest with
      | [] => none
      | low :: rest =>
        if isLowSurrogate low then
          (joinSurrogates rest).map
            (Char.ofNat (0x10000 + (code - 0xd800) * 0x400 + (low - 0xdc00)) :: ·)
        else
          none
    else
      (joinSurrogates rest).map (Char.ofNat code :: ·)

/-! ### Numbers -/

/-- The number that decimal digits stand for. -/
def decimalValue (digits : List Char) : Nat :=
  digits.foldl (fun n c => 10 * n + (c.toNat - '0'.toNat)) 0

/-- Read one or more decimal digits. -/
def scanDigits (cs : List Char) : Option (List Char × List Char) :=
  if cs.takeWhile Char.isDigit = [] then
    none
  else
    some (cs.takeWhile Char.isDigit, cs.dropWhile Char.isDigit)

/-- Read a fraction, if there is one, and tell whether there is. -/
def scanFraction : List Char → Option (Bool × List Char)
  | '.' :: cs => do
    let (_, rest) ← scanDigits cs
    return (true, rest)
  | cs => some (false, cs)

/-- Skip the sign of an exponent. -/
def skipSign : List Char → List Char
  | '+' :: cs => cs
  | '-' :: cs => cs
  | cs => cs

/-- Read an exponent, if there is one, and tell whether there is. -/
def scanExponent (cs : List Char) : Option (Bool × List Char) :=
  match cs with
  | c :: cs' =>
    if c = 'e' ∨ c = 'E' then do
      let (_, rest) ← scanDigits (skipSign cs')
      return (true, rest)
    else
      some (false, cs)
  | [] => some (false, [])

/-- Read a number without its sign. -/
def scanUnsigned (negative : Bool) (cs : List Char) : Option (Option Int × List Char) := do
  let (digits, rest) ← scanDigits cs
  if digits.head? = some '0' ∧ digits.length ≠ 1 then
    none
  else
    let (hasFraction, rest) ← scanFraction rest
    let (hasExponent, rest) ← scanExponent rest
    let n := decimalValue digits
    if hasFraction ∨ hasExponent ∨ (negative ∧ n = 0) then
      return (none, rest)
    else
      return (some (if negative then -(n : Int) else n), rest)

/-- Read a number. -/
def scanNumber : List Char → Option (Option Int × List Char)
  | '-' :: cs => scanUnsigned true cs
  | cs => scanUnsigned false cs

/-! ### Tokens -/

/-- Read a token at the start of the characters. -/
def scan : List Char → Option (Token × List Char)
  | '[' :: rest => some (.openArray, rest)
  | ']' :: rest => some (.closeArray, rest)
  | '\x7b' :: rest => some (.openObject, rest)
  | '\x7d' :: rest => some (.closeObject, rest)
  | ':' :: rest => some (.colon, rest)
  | ',' :: rest => some (.comma, rest)
  | '"' :: cs => do
    let (codes, rest) ← scanString cs
    return (.scalar (.string ((joinSurrogates codes).map String.ofList)), rest)
  | 'n' :: 'u' :: 'l' :: 'l' :: rest => some (.scalar .null, rest)
  | 't' :: 'r' :: 'u' :: 'e' :: rest => some (.scalar (.bool true), rest)
  | 'f' :: 'a' :: 'l' :: 's' :: 'e' :: rest => some (.scalar (.bool false), rest)
  | cs => do
    let (n, rest) ← scanNumber cs
    return (.scalar (.number n), rest)

/-! ### Reading leaves less -/

theorem length_scanString {cs rest : List Char} {codes : List Nat}
    (h : scanString cs = some (codes, rest)) : rest.length < cs.length := by
  fun_induction scanString cs generalizing codes rest with
  | case1 => simp at h
  | case2 => simp_all
  | case3 a b c d r ih =>
    simp only [Option.bind_eq_bind, Option.bind_eq_some_iff] at h
    obtain ⟨_, -, ⟨codes', rest'⟩, hr, h⟩ := h
    obtain ⟨-, rfl⟩ := by simpa using h
    have := ih hr
    simp only [List.length_cons]
    omega
  | case4 c r _ ih =>
    simp only [Option.bind_eq_bind, Option.bind_eq_some_iff] at h
    obtain ⟨_, -, ⟨codes', rest'⟩, hr, h⟩ := h
    obtain ⟨-, rfl⟩ := by simpa using h
    have := ih hr
    simp only [List.length_cons]
    omega
  | case5 => simp at h
  | case6 c r _ _ _ _ ih =>
    simp only [Option.bind_eq_bind, Option.bind_eq_some_iff] at h
    obtain ⟨⟨codes', rest'⟩, hr, h⟩ := h
    obtain ⟨-, rfl⟩ := by simpa using h
    have := ih hr
    simp only [List.length_cons]
    omega

theorem length_scanDigits {cs digits rest : List Char} (h : scanDigits cs = some (digits, rest)) :
    rest.length < cs.length := by
  unfold scanDigits at h
  split at h
  · simp at h
  · rename_i hne
    obtain ⟨rfl, rfl⟩ := by simpa using h
    have hlen :=
      congrArg List.length (List.takeWhile_append_dropWhile (p := Char.isDigit) (l := cs))
    have := List.length_pos_iff.2 hne
    simp only [List.length_append] at hlen
    omega

theorem length_scanFraction {cs rest : List Char} {b : Bool}
    (h : scanFraction cs = some (b, rest)) : rest.length ≤ cs.length := by
  unfold scanFraction at h
  split at h
  · simp only [Option.bind_eq_bind, Option.bind_eq_some_iff] at h
    obtain ⟨⟨digits, rest'⟩, hd, h⟩ := h
    obtain ⟨-, rfl⟩ := by simpa using h
    have := length_scanDigits hd
    simp only [List.length_cons]
    omega
  · simp_all

theorem length_skipSign (cs : List Char) : (skipSign cs).length ≤ cs.length := by
  unfold skipSign
  split <;> simp

theorem length_scanExponent {cs rest : List Char} {b : Bool}
    (h : scanExponent cs = some (b, rest)) : rest.length ≤ cs.length := by
  unfold scanExponent at h
  split at h
  · rename_i c cs'
    split at h
    · simp only [Option.bind_eq_bind, Option.bind_eq_some_iff] at h
      obtain ⟨⟨digits, rest'⟩, hd, h⟩ := h
      obtain ⟨-, rfl⟩ := by simpa using h
      have := length_scanDigits hd
      have := length_skipSign cs'
      simp only [List.length_cons]
      omega
    · simp_all
  · simp_all

theorem length_scanUnsigned {negative : Bool} {cs rest : List Char} {n : Option Int}
    (h : scanUnsigned negative cs = some (n, rest)) : rest.length < cs.length := by
  unfold scanUnsigned at h
  simp only [Option.bind_eq_bind, Option.bind_eq_some_iff] at h
  obtain ⟨⟨digits, r⟩, hd, h⟩ := h
  split at h
  · simp at h
  · simp only [Option.bind_eq_some_iff] at h
    obtain ⟨⟨_, r'⟩, hf, ⟨_, r''⟩, he, h⟩ := h
    have := length_scanDigits hd
    have := length_scanFraction hf
    have := length_scanExponent he
    split at h <;> simp_all <;> omega

theorem length_scanNumber {cs rest : List Char} {n : Option Int}
    (h : scanNumber cs = some (n, rest)) : rest.length < cs.length := by
  unfold scanNumber at h
  split at h
  · have := length_scanUnsigned h
    simp only [List.length_cons]
    omega
  · exact length_scanUnsigned h

/-- A token takes at least one character. -/
theorem length_scan {cs rest : List Char} {t : Token} (h : scan cs = some (t, rest)) :
    rest.length < cs.length := by
  unfold scan at h
  split at h
  case h_7 =>
    simp only [Option.bind_eq_bind, Option.bind_eq_some_iff] at h
    obtain ⟨⟨codes, rest'⟩, hs, h⟩ := h
    obtain ⟨-, rfl⟩ := by simpa using h
    have := length_scanString hs
    simp only [List.length_cons]
    omega
  case h_11 =>
    simp only [Option.bind_eq_bind, Option.bind_eq_some_iff] at h
    obtain ⟨⟨n, rest'⟩, hs, h⟩ := h
    obtain ⟨-, rfl⟩ := by simpa using h
    exact length_scanNumber hs
  all_goals
    obtain ⟨-, rfl⟩ := by simpa using h
    simp only [List.length_cons]
    omega

/-! ### Texts -/

/-- The tokens of a text after the tokens `before`, which are given latest first. -/
def scanAll (before : List Token) (cs : List Char) : Option (List Token) :=
  match _h : scan (cs.dropWhile isBlank) with
  | some (t, rest) => scanAll (t :: before) rest
  | none => if cs.dropWhile isBlank = [] then some before.reverse else none
termination_by cs.length
decreasing_by
  have := length_scan _h
  have := (List.dropWhile_sublist isBlank (l := cs)).length_le
  omega

/-- The tokens of a text, unless some character starts none. -/
def ofText? (text : String) : Option (List Token) := scanAll [] text.toList

end Token
end GraphTransform
