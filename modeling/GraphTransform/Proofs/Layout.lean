import GraphTransform.Json.Printer
import Mathlib.Data.List.Basic
import Mathlib.Data.List.Chain
import Mathlib.Data.List.TakeWhile

/-!
# The layout of tokens

A text is cut into tokens as they are read, each as far as it reaches. Here the texts of given
tokens are described without reading: a text of each token after the other, with any white space
before, between and after them. Such a text is read as these tokens unless two values without parts
stand side by side, which no JSON value has.

Reading a token depends on the characters that it takes, and on the next one only in so far as a
number might go on with it. That is shown for the parts of a token first (`Spells`).
-/

namespace GraphTransform

namespace Token

/-! ### Reading depends on what is read -/

section Spells

variable {α : Type}

/-- The characters do not start with one that has the property. -/
def StartsOutside (more : Char → Prop) (cs : List Char) : Prop := ∀ c ∈ cs.head?, ¬ more c

theorem startsOutside_nil (more : Char → Prop) : StartsOutside more [] := by
  rintro c ⟨⟩

theorem startsOutside_cons {more : Char → Prop} {c : Char} (hc : ¬ more c) (cs : List Char) :
    StartsOutside more (c :: cs) := by
  rintro _ ⟨⟩
  exact hc

theorem StartsOutside.mono {more less : Char → Prop} {cs : List Char} (h : StartsOutside more cs)
    (hle : ∀ c, less c → more c) : StartsOutside less cs := fun c hc hless => h c hc (hle c hless)

/-- Characters are read as `a`, whatever comes after them, unless it starts with one of those with
which they may go on. -/
def Spells (read : List Char → Option (α × List Char)) (more : Char → Prop) (p : List Char)
    (a : α) : Prop := ∀ rest, StartsOutside more rest → read (p ++ rest) = some (a, rest)

end Spells

/-! ### Numbers -/

/-- A character with which a number may go on. -/
def GoesOn (c : Char) : Prop := c.isDigit = true ∨ c = '.' ∨ c = 'e' ∨ c = 'E'

/-- Digits are read up to the first character that is none. -/
theorem scanDigits_eq_some_iff {cs ds rest : List Char} :
    scanDigits cs = some (ds, rest) ↔
      ds ≠ [] ∧ (∀ c ∈ ds, c.isDigit = true) ∧ StartsOutside (·.isDigit = true) rest ∧
      cs = ds ++ rest := by
  constructor
  · intro h
    unfold scanDigits at h
    split at h
    · simp at h
    · next hne =>
      obtain ⟨rfl, rfl⟩ := by simpa using h
      refine ⟨hne, fun c hc => List.mem_takeWhile_imp hc, fun c hc => ?_, ?_⟩
      · have hstop := List.head?_dropWhile_not Char.isDigit cs
        rw [hc] at hstop
        exact Bool.eq_false_iff.mp hstop
      · exact List.takeWhile_append_dropWhile.symm
  · rintro ⟨hne, hds, hrest, rfl⟩
    have hstop : rest.takeWhile Char.isDigit = [] ∧ rest.dropWhile Char.isDigit = rest := by
      cases rest with
      | nil => exact ⟨rfl, rfl⟩
      | cons c rest =>
        have hc : ¬ c.isDigit = true := hrest c rfl
        simp [hc]
    rw [scanDigits, List.takeWhile_append_of_pos hds, List.dropWhile_append_of_pos hds,
      hstop.1, hstop.2, List.append_nil, if_neg hne]

theorem spells_scanDigits {ds : List Char} (hne : ds ≠ []) (hds : ∀ c ∈ ds, c.isDigit = true) :
    Spells scanDigits (·.isDigit = true) ds ds := fun _ hrest =>
  scanDigits_eq_some_iff.mpr ⟨hne, hds, hrest, rfl⟩

theorem exists_spells_scanDigits {cs ds rest : List Char} (h : scanDigits cs = some (ds, rest)) :
    cs = ds ++ rest ∧ (∃ c ds', ds = c :: ds' ∧ c.isDigit = true) ∧
      Spells scanDigits (·.isDigit = true) ds ds := by
  obtain ⟨hne, hds, -, rfl⟩ := scanDigits_eq_some_iff.mp h
  obtain ⟨c, ds', rfl⟩ := List.exists_cons_of_ne_nil hne
  exact ⟨rfl, ⟨c, ds', rfl, hds c (List.mem_cons_self ..)⟩, spells_scanDigits hne hds⟩

theorem scanFraction_of_startsOutside {cs : List Char} (h : StartsOutside (· = '.') cs) :
    scanFraction cs = some (false, cs) := by
  unfold scanFraction
  split
  · exact absurd rfl (h '.' rfl)
  · rfl

theorem exists_spells_scanFraction {cs rest : List Char} {b : Bool}
    (h : scanFraction cs = some (b, rest)) :
    ∃ p, cs = p ++ rest ∧ (∀ c ∈ p.head?, c = '.') ∧
      Spells scanFraction (fun c => c.isDigit = true ∨ c = '.') p b := by
  unfold scanFraction at h
  split at h
  · simp only [Option.bind_eq_bind, Option.bind_eq_some_iff] at h
    obtain ⟨⟨ds, r⟩, hd, h⟩ := h
    obtain ⟨rfl, rfl⟩ := by simpa using h
    obtain ⟨rfl, -, hspells⟩ := exists_spells_scanDigits hd
    refine ⟨'.' :: ds, rfl, by simp, fun rest hrest => ?_⟩
    have hd' := hspells rest (hrest.mono fun _ => .inl)
    simp [scanFraction, hd']
  · obtain ⟨rfl, rfl⟩ := by simpa using h
    exact ⟨[], rfl, by simp, fun rest hrest =>
      scanFraction_of_startsOutside (hrest.mono fun _ => .inr)⟩

/-- A sign is skipped, if digits follow, and digits have none. -/
theorem exists_skipSign_eq (cs : List Char) : ∃ sign, cs = sign ++ skipSign cs ∧
    ∀ c rest, c.isDigit = true → skipSign (sign ++ c :: rest) = c :: rest := by
  unfold skipSign
  split
  · exact ⟨['+'], rfl, fun _ _ _ => rfl⟩
  · exact ⟨['-'], rfl, fun _ _ _ => rfl⟩
  · refine ⟨[], rfl, fun c rest hc => ?_⟩
    split
    · next h => cases h; contradiction
    · next h => cases h; contradiction
    · rfl

theorem scanExponent_of_startsOutside {cs : List Char}
    (h : StartsOutside (fun c => c = 'e' ∨ c = 'E') cs) : scanExponent cs = some (false, cs) := by
  cases cs with
  | nil => rfl
  | cons c cs => rw [scanExponent, if_neg (h c rfl)]

theorem exists_spells_scanExponent {cs rest : List Char} {b : Bool}
    (h : scanExponent cs = some (b, rest)) :
    ∃ p, cs = p ++ rest ∧ (∀ c ∈ p.head?, c = 'e' ∨ c = 'E') ∧
      Spells scanExponent (fun c => c.isDigit = true ∨ c = 'e' ∨ c = 'E') p b := by
  unfold scanExponent at h
  split at h
  · next c cs' =>
    split at h
    · next hc =>
      simp only [Option.bind_eq_bind, Option.bind_eq_some_iff] at h
      obtain ⟨⟨ds, r⟩, hd, h⟩ := h
      obtain ⟨rfl, rfl⟩ := by simpa using h
      obtain ⟨hcs, ⟨d, ds', rfl, hdigit⟩, hspells⟩ := exists_spells_scanDigits hd
      obtain ⟨sign, hsign, hskip⟩ := exists_skipSign_eq cs'
      refine ⟨c :: (sign ++ d :: ds'), ?_, by simpa using hc, fun rest hrest => ?_⟩
      · rw [hsign, hcs]
        simp
      · have hd' := hspells rest (hrest.mono fun _ => .inl)
        have hskip' : skipSign (sign ++ d :: (ds' ++ rest)) = d :: ds' ++ rest :=
          hskip d (ds' ++ rest) hdigit
        rw [List.cons_append] at hd' hskip'
        simp [scanExponent, hc, hskip', hd']
    · obtain ⟨rfl, rfl⟩ := by simpa using h
      exact ⟨[], rfl, by simp, fun rest hrest =>
        scanExponent_of_startsOutside (hrest.mono fun _ => .inr)⟩
  · obtain ⟨rfl, rfl⟩ := by simpa using h
    exact ⟨[], rfl, by simp, fun rest hrest =>
      scanExponent_of_startsOutside (hrest.mono fun _ => .inr)⟩

/-- The start of two lists is that of the first, or, if that is empty, of the second. -/
theorem startsOutside_append {more : Char → Prop} {p cs : List Char} (hp : StartsOutside more p)
    (hcs : StartsOutside more cs) : StartsOutside more (p ++ cs) := by
  cases p with
  | nil => exact hcs
  | cons c p => exact startsOutside_cons (hp c rfl) _

theorem exists_spells_scanUnsigned {negative : Bool} {cs rest : List Char} {n : Option Int}
    (h : scanUnsigned negative cs = some (n, rest)) :
    ∃ c p, cs = c :: p ++ rest ∧ c.isDigit = true ∧
      Spells (scanUnsigned negative) GoesOn (c :: p) n := by
  unfold scanUnsigned at h
  simp only [Option.bind_eq_bind, Option.bind_eq_some_iff] at h
  obtain ⟨⟨ds, r⟩, hd, h⟩ := h
  split at h
  · simp at h
  · next hzero =>
    simp only [Option.bind_eq_some_iff] at h
    obtain ⟨⟨f, r'⟩, hf, ⟨e, r''⟩, he, h⟩ := h
    obtain ⟨rfl, ⟨c, ds, rfl, hc⟩, hds⟩ := exists_spells_scanDigits hd
    obtain ⟨p, rfl, hp, hpf⟩ := exists_spells_scanFraction hf
    obtain ⟨q, rfl, hq, hqe⟩ := exists_spells_scanExponent he
    have hr : r'' = rest := by split at h <;> simp_all
    subst hr
    refine ⟨c, ds ++ (p ++ q), by simp, hc, fun rest hrest => ?_⟩
    -- an exponent starts with a letter and a fraction with a point, so that each part ends there
    have he' := hqe rest (hrest.mono fun _ => by simp only [GoesOn]; tauto)
    have hf' : scanFraction (p ++ (q ++ rest)) = some (f, q ++ rest) := by
      refine hpf _ (startsOutside_append (fun c hc => ?_)
        (hrest.mono fun _ => by simp only [GoesOn]; tauto))
      obtain rfl | rfl := hq c hc <;> decide
    have hd' : scanDigits (c :: ds ++ (p ++ (q ++ rest))) = some (c :: ds, p ++ (q ++ rest)) := by
      refine hds _ (startsOutside_append (fun c hc => ?_) (startsOutside_append (fun c hc => ?_)
        (hrest.mono fun _ => .inl)))
      · rw [hp c hc]
        decide
      · obtain rfl | rfl := hq c hc <;> decide
    have hcs : c :: (ds ++ (p ++ q)) ++ rest = c :: ds ++ (p ++ (q ++ rest)) := by simp
    rw [hcs, scanUnsigned, hd']
    simp only [Option.bind_eq_bind, Option.bind_some, hf', he', if_neg hzero]
    split at h <;> simp_all

theorem exists_spells_scanNumber {cs rest : List Char} {n : Option Int}
    (h : scanNumber cs = some (n, rest)) :
    ∃ c p, cs = c :: p ++ rest ∧ (c.isDigit = true ∨ c = '-') ∧
      Spells scanNumber GoesOn (c :: p) n := by
  unfold scanNumber at h
  split at h
  · obtain ⟨c, p, rfl, -, hp⟩ := exists_spells_scanUnsigned h
    exact ⟨'-', c :: p, rfl, .inr rfl, hp⟩
  · next hsign =>
    obtain ⟨c, p, rfl, hc, hp⟩ := exists_spells_scanUnsigned h
    refine ⟨c, p, rfl, .inl hc, fun rest hrest => ?_⟩
    rw [← hp rest hrest, scanNumber]
    rintro cs' h
    cases h
    exact hsign _ rfl

/-! ### Strings -/

/-- A character of a string that stands for itself. -/
theorem scanString_cons {c : Char} (hquote : c ≠ '"') (hescape : c ≠ '\\') (hc : ¬ c.toNat < 0x20)
    (cs : List Char) :
    scanString (c :: cs) = (scanString cs).map fun (codes, rest) => (c.toNat :: codes, rest) := by
  rw [scanString]
  · rw [if_neg (by simp [hc, hescape])]
    cases scanString cs <;> rfl
  all_goals simp_all

/-- A character of a string that a letter escapes. -/
theorem scanString_escape {c : Char} {code : Nat} (hc : escaped? c = some code) (cs : List Char) :
    scanString ('\\' :: c :: cs) = (scanString cs).map fun (codes, rest) =>
      (code :: codes, rest) := by
  -- the letter `u` escapes nothing on its own
  have hu : c ≠ 'u' := by
    rintro rfl
    simp [escaped?] at hc
  rw [scanString]
  · rw [hc]
    cases scanString cs <;> rfl
  · simp_all

/-- Four digits to base sixteen that give the code of a character of a string. -/
theorem scanString_hex {a b c d : Char} {code : Nat} (h : hexNumber? a b c d = some code)
    (cs : List Char) :
    scanString ('\\' :: 'u' :: a :: b :: c :: d :: cs) =
      (scanString cs).map fun (codes, rest) => (code :: codes, rest) := by
  rw [scanString, h]
  cases scanString cs <;> rfl

theorem exists_spells_scanString {cs rest : List Char} {codes : List Nat}
    (h : scanString cs = some (codes, rest)) :
    ∃ p, cs = p ++ rest ∧ ∀ rest', scanString (p ++ rest') = some (codes, rest') := by
  fun_induction scanString cs generalizing codes rest with
  | case1 => simp at h
  | case2 r =>
    obtain ⟨rfl, rfl⟩ := by simpa using h
    exact ⟨['"'], rfl, fun _ => rfl⟩
  | case3 a b c d r ih =>
    simp only [Option.bind_eq_bind, Option.bind_eq_some_iff] at h
    obtain ⟨code, hcode, ⟨codes', rest'⟩, hr, h⟩ := h
    obtain ⟨rfl, rfl⟩ := by simpa using h
    obtain ⟨p, rfl, hp⟩ := ih hr
    exact ⟨'\\' :: 'u' :: a :: b :: c :: d :: p, rfl,
      fun rest' => by simp [scanString_hex hcode, hp]⟩
  | case4 c r _ ih =>
    simp only [Option.bind_eq_bind, Option.bind_eq_some_iff] at h
    obtain ⟨code, hcode, ⟨codes', rest'⟩, hr, h⟩ := h
    obtain ⟨rfl, rfl⟩ := by simpa using h
    obtain ⟨p, rfl, hp⟩ := ih hr
    exact ⟨'\\' :: c :: p, rfl, fun rest' => by simp [scanString_escape hcode, hp]⟩
  | case5 => simp at h
  | case6 c r hquote _ _ hplain ih =>
    simp only [Option.bind_eq_bind, Option.bind_eq_some_iff] at h
    obtain ⟨⟨codes', rest'⟩, hr, h⟩ := h
    obtain ⟨rfl, rfl⟩ := by simpa using h
    obtain ⟨p, rfl, hp⟩ := ih hr
    obtain ⟨hc, hescape⟩ := not_or.mp hplain
    exact ⟨c :: p, rfl, fun rest' => by simp [scanString_cons hquote hescape hc, hp]⟩

/-! ### Tokens -/

/-- Whether a token is a value without parts. -/
def isScalar : Token → Bool
  | .scalar _ => true
  | _ => false

/-- A token that starts with a digit or a minus sign is a number. -/
theorem scan_number {c : Char} (hc : c.isDigit = true ∨ c = '-') (cs : List Char) :
    scan (c :: cs) = (scanNumber (c :: cs)).map fun (n, rest) => (.scalar (.number n), rest) := by
  rw [scan]
  · cases scanNumber (c :: cs) <;> rfl
  all_goals
    rintro _ ⟨⟩
    revert hc
    decide

/-- What is read as a token is a text of it on its own, and the written form if the token is no
value without parts. -/
theorem exists_spells_scan {cs rest : List Char} {t : Token} (h : scan cs = some (t, rest)) :
    ∃ p, cs = p ++ rest ∧ Spells scan (fun c => t.isScalar = true ∧ GoesOn c) p t ∧
      (t.isScalar = false → p = t.chars) := by
  unfold scan at h
  split at h
  case h_7 cs' =>
    simp only [Option.bind_eq_bind, Option.bind_eq_some_iff] at h
    obtain ⟨⟨codes, rest'⟩, hs, h⟩ := h
    obtain ⟨rfl, rfl⟩ := by simpa using h
    obtain ⟨p, rfl, hp⟩ := exists_spells_scanString hs
    exact ⟨'"' :: p, rfl, fun rest _ => by simp [scan, hp], nofun⟩
  case h_11 =>
    simp only [Option.bind_eq_bind, Option.bind_eq_some_iff] at h
    obtain ⟨⟨n, rest'⟩, hs, h⟩ := h
    obtain ⟨rfl, rfl⟩ := by simpa using h
    obtain ⟨c, p, rfl, hc, hp⟩ := exists_spells_scanNumber hs
    refine ⟨c :: p, rfl, fun rest hrest => ?_, nofun⟩
    have hn := hp rest (hrest.mono fun _ hd => ⟨rfl, hd⟩)
    rw [List.cons_append] at hn ⊢
    rw [scan_number hc, hn]
    rfl
  all_goals
    refine ⟨t.chars, ?_⟩
    obtain ⟨rfl, rfl⟩ := by simpa using h
    exact ⟨rfl, fun _ _ => rfl, fun _ => rfl⟩

/-- No token starts with white space. -/
theorem scan_of_isBlank {c : Char} (hc : isBlank c = true) (cs : List Char) :
    scan (c :: cs) = none := by
  simp only [isBlank, Bool.or_eq_true, decide_eq_true_eq] at hc
  obtain ((rfl | rfl) | rfl) | rfl := hc <;> simp [scan, scanNumber, scanUnsigned, scanDigits]

/-! ### Texts -/

/-- Characters are a text of each of some tokens, one after the other, with any white space before,
between and after them. -/
inductive Laid : List Token → List Char → Prop where
  | nil {ws : List Char} (hws : ∀ c ∈ ws, isBlank c = true) : Laid [] ws
  | cons {ws p cs : List Char} {t : Token} {ts : List Token} (hws : ∀ c ∈ ws, isBlank c = true)
      (hp : scan p = some (t, [])) (hcs : Laid ts cs) : Laid (t :: ts) (ws ++ (p ++ cs))

/-- What is laid out may be followed by what is laid out, with any white space in between. -/
theorem Laid.append {ts us : List Token} {cs ds ws : List Char} (h : Laid ts cs)
    (hws : ∀ c ∈ ws, isBlank c = true) (h' : Laid us ds) : Laid (ts ++ us) (cs ++ (ws ++ ds)) := by
  have hblanks {vs : List Char} (hvs : ∀ c ∈ vs, isBlank c = true) {us : List Token}
      {ds : List Char} (h : Laid us ds) : Laid us (vs ++ ds) := by
    cases h with
    | nil hws =>
      refine .nil fun c hc => ?_
      exact (List.mem_append.mp hc).elim (hvs c) (hws c)
    | cons hws hp hcs =>
      rw [← List.append_assoc]
      refine .cons (fun c hc => ?_) hp hcs
      exact (List.mem_append.mp hc).elim (hvs c) (hws c)
  induction h with
  | nil hvs => exact hblanks hvs (hblanks hws h')
  | cons hvs hp _ ih =>
    simp only [List.cons_append, List.append_assoc]
    exact .cons hvs hp ih

/-- No two values without parts stand side by side. -/
def Separated (ts : List Token) : Prop :=
  ts.IsChain fun t u => ¬ (t.isScalar = true ∧ u.isScalar = true)

/-- What is read as tokens is a text of them. -/
theorem laid_of_scanAll {before all : List Token} {cs : List Char}
    (h : scanAll before cs = some all) : ∃ ts, all = before.reverse ++ ts ∧ Laid ts cs := by
  have hblank (cs : List Char) : ∀ c ∈ cs.takeWhile isBlank, isBlank c = true := fun c hc =>
    List.mem_takeWhile_imp hc
  fun_induction scanAll before cs with
  | case1 before cs t rest hscan ih =>
    obtain ⟨ts, rfl, hts⟩ := ih h
    obtain ⟨p, hp, hspells, -⟩ := exists_spells_scan hscan
    have ht : scan p = some (t, []) := by simpa using hspells [] (startsOutside_nil _)
    refine ⟨t :: ts, by simp, ?_⟩
    rw [← List.takeWhile_append_dropWhile (p := isBlank) (l := cs), hp]
    exact .cons (hblank cs) ht hts
  | case2 before cs hscan hcs =>
    refine ⟨[], by simpa using h.symm, ?_⟩
    rw [← List.takeWhile_append_dropWhile (p := isBlank) (l := cs), hcs, List.append_nil]
    exact .nil (hblank cs)
  | case3 => simp at h

theorem startsOutside_of_isBlank {ws : List Char} (h : ∀ c ∈ ws, isBlank c = true) :
    StartsOutside GoesOn ws := by
  intro c hc
  have hb := h c (List.mem_of_mem_head? hc)
  simp only [isBlank, Bool.or_eq_true, decide_eq_true_eq] at hb
  obtain ((rfl | rfl) | rfl) | rfl := hb <;> simp [GoesOn]

/-- A number ends where white space or another token than a value without parts comes next. -/
theorem Laid.startsOutside {ts : List Token} {cs : List Char} (h : Laid ts cs)
    (hts : ∀ t ∈ ts.head?, t.isScalar = false) : StartsOutside GoesOn cs := by
  cases h with
  | nil hws => exact startsOutside_of_isBlank hws
  | @cons ws p cs t ts hws hp _ =>
    have ht := hts t rfl
    obtain ⟨q, hq, -, hchars⟩ := exists_spells_scan hp
    obtain rfl : p = q := by simpa using hq
    rw [hchars ht]
    refine startsOutside_append (startsOutside_of_isBlank hws) ?_
    cases t with
    | scalar => cases ht
    | _ => exact startsOutside_cons (by simp [GoesOn]) _

/-- A text of some tokens is read as them, if no two values without parts stand side by side. -/
theorem Laid.scanAll_eq {ts : List Token} {cs : List Char} (h : Laid ts cs) (hs : Separated ts)
    (before : List Token) : scanAll before cs = some (before.reverse ++ ts) := by
  induction h generalizing before with
  | @nil ws hws =>
    have hdrop : ws.dropWhile isBlank = [] := List.dropWhile_eq_nil_iff.mpr hws
    rw [scanAll, hdrop]
    simp [scan, scanNumber, scanUnsigned, scanDigits]
  | @cons ws p cs t ts hws hp hcs ih =>
    have hstart : StartsOutside (fun c => t.isScalar = true ∧ GoesOn c) cs := by
      rintro c hc ⟨ht, hgoes⟩
      refine hcs.startsOutside (fun u hu => ?_) c hc hgoes
      have := List.isChain_cons.mp hs |>.1 u hu
      simpa [ht] using this
    obtain ⟨q, hq, hspells, -⟩ := exists_spells_scan hp
    obtain rfl : p = q := by simpa using hq
    have hscan := hspells cs hstart
    -- what is read as a token does not start with white space
    have hdrop : (ws ++ (p ++ cs)).dropWhile isBlank = p ++ cs := by
      rw [List.dropWhile_append_of_pos hws]
      cases hpcs : p ++ cs with
      | nil => rfl
      | cons c rest =>
        by_cases hc : isBlank c = true
        · rw [hpcs, scan_of_isBlank hc] at hscan
          cases hscan
        · exact List.dropWhile_cons_of_neg hc
    rw [scanAll, hdrop]
    split
    · next u rest h =>
      rw [hscan] at h
      cases h
      rw [ih (List.isChain_of_isChain_cons hs)]
      simp
    · next h => simp [hscan] at h

/-- The texts that are read as some tokens are those that are laid out from them. -/
theorem ofText?_eq_some_iff {text : String} {ts : List Token} (hs : Separated ts) :
    ofText? text = some ts ↔ Laid ts text.toList := by
  constructor
  · intro h
    obtain ⟨ts', rfl, hlaid⟩ := laid_of_scanAll h
    exact hlaid
  · exact fun h => h.scanAll_eq hs []

end Token

end GraphTransform
