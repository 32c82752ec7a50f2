import GraphTransform.Proofs.Parsing

/-!
# The printed text of a JSON value

What is printed for a token is a text of this token: digits are read as the number that they were
printed for, and an escaped string as the string, whatever characters it has. So the printed text of
a value is one of its texts, and parsing undoes printing.
-/

namespace GraphTransform

namespace Token

/-! ### Numbers -/

theorem decimalValue_toDigits (n : Nat) : decimalValue (Nat.toDigits 10 n) = n := by
  rw [decimalValue, ← Nat.ofDigitChars_eq_foldl, Nat.ofDigitChars_ten_toDigits]

/-- A positive number is printed without leading zeros. -/
theorem head?_toDigits_ne_zero {n : Nat} (h : 0 < n) : (Nat.toDigits 10 n).head? ≠ some '0' := by
  induction n using Nat.strongRecOn with
  | ind n ih =>
    rw [Nat.toDigits_eq_if (by decide)]
    split
    · next hlt =>
      have hdigit (d : Fin 10) (hd : 0 < d.val) : [d.val.digitChar].head? ≠ some '0' := by
        revert d
        decide
      exact hdigit ⟨n, hlt⟩ h
    · next hle =>
      rw [List.head?_append_of_ne_nil _ Nat.toDigits_ne_nil]
      exact ih (n / 10) (by omega) (by omega)

theorem scanUnsigned_toDigits (negative : Bool) {n : Nat} (h : negative = true → n ≠ 0) :
    scanUnsigned negative (Nat.toDigits 10 n) =
      some (some (if negative = true then -(n : Int) else n), []) := by
  have hd : scanDigits (Nat.toDigits 10 n) = some (Nat.toDigits 10 n, []) := by
    refine scanDigits_eq_some_iff.mpr ⟨Nat.toDigits_ne_nil, fun c hc => ?_,
      startsOutside_nil _, by simp⟩
    exact Nat.isDigit_of_mem_toDigits (by decide) (by decide) hc
  have hzero : ¬ ((Nat.toDigits 10 n).head? = some '0' ∧ (Nat.toDigits 10 n).length ≠ 1) := by
    rintro ⟨hhead, hlen⟩
    obtain rfl | hn := Nat.eq_zero_or_pos n
    · exact hlen (by rw [Nat.toDigits_zero]; rfl)
    · exact head?_toDigits_ne_zero hn hhead
  simp only [scanUnsigned, hd, Option.bind_eq_bind, Option.bind_some, if_neg hzero,
    scanFraction, scanExponent, decimalValue_toDigits]
  rw [if_neg (by simpa using h)]
  rfl

/-- An integer starts with a digit or a minus sign. -/
theorem exists_intChars_eq (n : Int) :
    ∃ c cs, intChars n = c :: cs ∧ (c.isDigit = true ∨ c = '-') := by
  match n with
  | .ofNat n =>
    obtain ⟨c, cs, h⟩ := List.exists_cons_of_ne_nil (Nat.toDigits_ne_nil (n := n) (b := 10))
    have hc : c ∈ Nat.toDigits 10 n := by simp [h]
    exact ⟨c, cs, h, .inl (Nat.isDigit_of_mem_toDigits (by decide) (by decide) hc)⟩
  | .negSucc n => exact ⟨'-', _, rfl, .inr rfl⟩

theorem scanNumber_intChars (n : Int) : scanNumber (intChars n) = some (some n, []) := by
  match n with
  | .ofNat n =>
    have hscan := scanUnsigned_toDigits false (n := n) nofun
    unfold scanNumber
    split
    · next cs h =>
      -- no digit is a minus sign
      have hsign : '-' ∈ Nat.toDigits 10 n := by
        rw [show Nat.toDigits 10 n = '-' :: cs from h]
        exact List.mem_cons_self ..
      exact absurd (Nat.isDigit_of_mem_toDigits (by decide) (by decide) hsign) (by decide)
    · exact hscan
  | .negSucc n => exact scanUnsigned_toDigits true fun _ => Nat.succ_ne_zero n

/-! ### Strings -/

theorem hexNumber?_control :
    ∀ n < 0x20, hexNumber? '0' '0' (hexDigit (n / 16)) (hexDigit (n % 16)) = some n := by
  decide

/-- An escaped character is read as its code. -/
theorem scanString_escapeChar (c : Char) (cs : List Char) : scanString (escapeChar c ++ cs) =
    (scanString cs).map fun (codes, rest) => (c.toNat :: codes, rest) := by
  unfold escapeChar
  split
  · next h => subst h; exact scanString_escape rfl cs
  split
  · next h => subst h; exact scanString_escape rfl cs
  split
  · next h => subst h; exact scanString_escape rfl cs
  split
  · next h => subst h; exact scanString_escape rfl cs
  split
  · next h => subst h; exact scanString_escape rfl cs
  split
  · next h => subst h; exact scanString_escape rfl cs
  split
  · next h => subst h; exact scanString_escape rfl cs
  split
  · next h => exact scanString_hex (hexNumber?_control _ h) cs
  · next hquote hescape _ _ _ _ _ h => exact scanString_cons hquote hescape h cs

theorem scanString_escapeChars (s rest : List Char) :
    scanString (s.flatMap escapeChar ++ '"' :: rest) = some (s.map Char.toNat, rest) := by
  induction s with
  | nil => rfl
  | cons c s ih =>
    rw [List.flatMap_cons, List.append_assoc, scanString_escapeChar, ih]
    rfl

/-- The code of a character is no half of a surrogate pair. -/
theorem not_surrogate (c : Char) :
    isLowSurrogate c.toNat = false ∧ isHighSurrogate c.toNat = false := by
  have hc : c.toNat < 0xd800 ∨ 0xdfff < c.toNat ∧ c.toNat < 0x110000 := c.valid
  simp only [isLowSurrogate, isHighSurrogate, Bool.and_eq_false_iff, decide_eq_false_iff_not]
  omega

theorem joinSurrogates_map_toNat (s : List Char) : joinSurrogates (s.map Char.toNat) = some s := by
  induction s with
  | nil => rfl
  | cons c s ih =>
    obtain ⟨hlow, hhigh⟩ := not_surrogate c
    rw [List.map_cons, joinSurrogates.eq_def]
    simp [hlow, hhigh, ih]

/-! ### Tokens and values -/

/-- What is printed for a token is read as this token. -/
theorem scan_chars (t : Token) : scan t.chars = some (t, []) := by
  match t with
  | .openArray | .closeArray | .openObject | .closeObject | .colon | .comma => rfl
  | .scalar .null | .scalar (.bool true) | .scalar (.bool false) => rfl
  | .scalar (.number none) | .scalar (.string none) => decide
  | .scalar (.number (some n)) =>
    obtain ⟨c, cs, h, hc⟩ := exists_intChars_eq n
    have hscan := scanNumber_intChars n
    rw [chars, scalarChars]
    rw [h] at hscan ⊢
    rw [scan_number hc, hscan]
    rfl
  | .scalar (.string (some s)) =>
    have hscan := scanString_escapeChars s.toList []
    have hjoin := joinSurrogates_map_toNat s.toList
    simp only [chars, scalarChars, List.cons_append, List.nil_append, scan, hscan,
      Option.bind_eq_bind, Option.bind_some, hjoin, Option.map_some, String.ofList_toList]
    rfl

theorem laid_chars (ts : List Token) : Laid ts (ts.flatMap chars) := by
  induction ts with
  | nil => exact .nil (by simp)
  | cons t ts ih => exact @Laid.cons [] _ _ _ _ nofun (scan_chars t) ih

end Token

namespace Json

theorem writes_text (j : Json) : j.Writes j.text := by
  rw [Writes, text, String.toList_ofList]
  exact Token.laid_chars j.toTokens

end Json

end GraphTransform
