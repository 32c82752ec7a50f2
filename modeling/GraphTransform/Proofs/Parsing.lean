import GraphTransform.Json.Parser
import GraphTransform.Proofs.Layout

/-!
# The texts of a JSON value

The parser reads a text as a value exactly if the text is laid out from the tokens of the value. In
one direction, every state of the parser tells which tokens have been read so far, and a step adds
the token that it takes. In the other, the tokens of a value lead from where it is expected to where
it is complete, whatever is unfinished around it.
-/

namespace GraphTransform

namespace Json

/-! ### What a state tells of the tokens before -/

/-- A comma, unless nothing comes before it. -/
def comma {α : Type} : List α → List Token
  | [] => []
  | _ :: _ => [.comma]

/-- The tokens of an array up to its latest item. -/
def openItems : List Json → List Token
  | [] => [.openArray]
  | j :: items => openItems items ++ comma items ++ j.toTokens

/-- The tokens of an object up to its latest member. -/
def openMembers : List (Option String × Json) → List Token
  | [] => [.openObject]
  | (name, j) :: members =>
    openMembers members ++ comma members ++ [.scalar (.string name), .colon] ++ j.toTokens

/-- The tokens of a frame. -/
def Frame.tokens : Frame → List Token
  | .array items => openItems items ++ comma items
  | .object members name =>
    openMembers members ++ comma members ++ [.scalar (.string name), .colon]

/-- The tokens that come after those of the frames. -/
def Expectation.tokens : Expectation → List Token
  | .value => []
  | .firstItem => openItems []
  | .firstName => openMembers []
  | .name members => openMembers members ++ [.comma]
  | .colon members key => openMembers members ++ comma members ++ [.scalar (.string key)]
  | .afterItem items => openItems items
  | .afterMember members => openMembers members
  | .nothing j => j.toTokens

/-- Something stands before a comma, and nothing is unfinished around a value that is all. -/
def Sound : State → Prop
  | (.name members, _) => members ≠ []
  | (.afterItem items, _) => items ≠ []
  | (.afterMember members, _) => members ≠ []
  | (.nothing _, frames) => frames = []
  | _ => True

/-- The tokens that have been read in a state. -/
def tokensRead (s : State) : List Token := s.2.reverse.flatMap Frame.tokens ++ s.1.tokens

theorem comma_of_ne_nil {α : Type} {as : List α} (h : as ≠ []) : comma as = [.comma] := by
  cases as with
  | nil => exact absurd rfl h
  | cons => rfl

theorem openItems_append {items : List Json} (h : items ≠ []) (js : List Json) :
    openItems items ++ itemTokens js = (Json.array (items.reverse ++ js)).toTokens := by
  induction items generalizing js with
  | nil => exact absurd rfl h
  | cons j items ih =>
    cases items with
    | nil => simp [openItems, comma, toTokens]
    | cons i items =>
      have hi := ih (by simp) (j :: js)
      rw [itemTokens] at hi
      simpa [openItems, comma] using hi

theorem openItems_close (items : List Json) :
    openItems items ++ [.closeArray] = (Json.array items.reverse).toTokens := by
  cases items with
  | nil => simp [openItems, toTokens]
  | cons j items => simpa [itemTokens] using openItems_append (List.cons_ne_nil j items) []

theorem openMembers_append {members : List (Option String × Json)} (h : members ≠ [])
    (ms : List (Option String × Json)) :
    openMembers members ++ memberTokens ms = (Json.object (members.reverse ++ ms)).toTokens := by
  induction members generalizing ms with
  | nil => exact absurd rfl h
  | cons m members ih =>
    obtain ⟨name, j⟩ := m
    cases members with
    | nil => simp [openMembers, comma, toTokens]
    | cons m members =>
      have hi := ih (by simp) ((name, j) :: ms)
      rw [memberTokens] at hi
      simpa [openMembers, comma] using hi

theorem openMembers_close (members : List (Option String × Json)) :
    openMembers members ++ [.closeObject] = (Json.object members.reverse).toTokens := by
  cases members with
  | nil => simp [openMembers, toTokens]
  | cons m members => simpa [memberTokens] using openMembers_append (List.cons_ne_nil m members) []

theorem tokensRead_resume (j : Json) (frames : List Frame) : Sound (resume j frames) ∧
    tokensRead (resume j frames) = frames.reverse.flatMap Frame.tokens ++ j.toTokens := by
  match frames with
  | [] => exact ⟨rfl, by simp [resume, tokensRead, Expectation.tokens]⟩
  | .array items :: frames =>
    exact ⟨by simp [resume, Sound],
      by simp [resume, tokensRead, Expectation.tokens, Frame.tokens, openItems]⟩
  | .object members name :: frames =>
    exact ⟨by simp [resume, Sound],
      by simp [resume, tokensRead, Expectation.tokens, Frame.tokens, openMembers]⟩

theorem tokensRead_openValue {frames : List Frame} {t : Token} {s : State}
    (h : openValue frames t = some s) :
    Sound s ∧ tokensRead s = frames.reverse.flatMap Frame.tokens ++ [t] := by
  unfold openValue at h
  split at h
  · obtain rfl := Option.some.inj h
    simpa [toTokens] using tokensRead_resume (.scalar _) frames
  · obtain rfl := Option.some.inj h
    exact ⟨trivial, rfl⟩
  · obtain rfl := Option.some.inj h
    exact ⟨trivial, rfl⟩
  · cases h

/-- A step reads the token that it takes. -/
theorem tokensRead_step {s s' : State} {t : Token} (h : step s t = some s') (hs : Sound s) :
    Sound s' ∧ tokensRead s' = tokensRead s ++ [t] := by
  unfold step at h
  split at h
  -- a value
  · simpa [tokensRead, Expectation.tokens] using tokensRead_openValue h
  -- the first item or the end of an array
  · obtain rfl := Option.some.inj h
    simpa [tokensRead, Expectation.tokens, openItems, toTokens]
      using tokensRead_resume (.array []) _
  · simpa [tokensRead, Expectation.tokens, Frame.tokens, comma] using tokensRead_openValue h
  -- the first name or the end of an object
  · obtain rfl := Option.some.inj h
    simpa [tokensRead, Expectation.tokens, openMembers, toTokens]
      using tokensRead_resume (.object []) _
  · obtain rfl := Option.some.inj h
    exact ⟨trivial, by simp [tokensRead, Expectation.tokens, comma]⟩
  -- a further name
  · obtain rfl := Option.some.inj h
    exact ⟨trivial, by simp [tokensRead, Expectation.tokens, comma_of_ne_nil hs]⟩
  -- a colon
  · obtain rfl := Option.some.inj h
    exact ⟨trivial, by simp [tokensRead, Expectation.tokens, Frame.tokens]⟩
  -- a comma or the end of an array
  · obtain rfl := Option.some.inj h
    exact ⟨trivial, by simp [tokensRead, Expectation.tokens, Frame.tokens, comma_of_ne_nil hs]⟩
  · obtain rfl := Option.some.inj h
    simpa [tokensRead, Expectation.tokens, openItems_close] using tokensRead_resume (.array _) _
  -- a comma or the end of an object
  · obtain rfl := Option.some.inj h
    exact ⟨hs, by simp [tokensRead, Expectation.tokens]⟩
  · obtain rfl := Option.some.inj h
    simpa [tokensRead, Expectation.tokens, openMembers_close] using tokensRead_resume (.object _) _
  · cases h

/-- A run reads the tokens that it takes. -/
theorem tokensRead_run {ts : List Token} {s s' : State} (h : ts.foldlM step s = some s')
    (hs : Sound s) : Sound s' ∧ tokensRead s' = tokensRead s ++ ts := by
  induction ts generalizing s with
  | nil =>
    obtain rfl := by simpa using h
    exact ⟨hs, by simp⟩
  | cons t ts ih =>
    rw [List.foldlM_cons, Option.bind_eq_bind, Option.bind_eq_some_iff] at h
    obtain ⟨s₁, hstep, hrun⟩ := h
    obtain ⟨hs₁, ht⟩ := tokensRead_step hstep hs
    obtain ⟨hs', hts⟩ := ih hrun hs₁
    exact ⟨hs', by rw [hts, ht, List.append_assoc, List.singleton_append]⟩

/-! ### The tokens of a value are read as it -/

/-- The first token of a value is no bracket that closes an array. -/
theorem run_firstItem (j : Json) (frames : List Frame) :
    j.toTokens.foldlM step (.firstItem, frames) =
      j.toTokens.foldlM step (.value, .array [] :: frames) := by
  match j with
  | .scalar _ | .array [] | .array (_ :: _) | .object [] | .object (_ :: _) => rfl

mutual

/-- The tokens of a value complete it where a value is expected. -/
theorem run_toTokens (j : Json) (frames : List Frame) :
    j.toTokens.foldlM step (.value, frames) = some (resume j frames) := by
  match j with
  | .scalar _ | .array [] | .object [] => rfl
  | .array (j :: items) =>
    have hj : j.toTokens.foldlM step (.firstItem, frames) = some (.afterItem [j], frames) :=
      (run_firstItem j frames).trans (run_toTokens j (.array [] :: frames))
    simp only [toTokens, List.foldlM_cons, step, openValue, List.foldlM_append, hj,
      Option.bind_eq_bind, Option.bind_some, run_itemTokens items [j] frames,
      List.reverse_singleton, List.singleton_append]
  | .object ((name, j) :: members) =>
    have hj : j.toTokens.foldlM step (.value, .object [] name :: frames) =
        some (.afterMember [(name, j)], frames) :=
      run_toTokens j (.object [] name :: frames)
    simp only [toTokens, List.foldlM_cons, step, openValue, List.foldlM_append, hj,
      Option.bind_eq_bind, Option.bind_some, run_memberTokens members [(name, j)] frames,
      List.reverse_singleton, List.singleton_append]

/-- The tokens of the further items complete an array. -/
theorem run_itemTokens (js items : List Json) (frames : List Frame) :
    (itemTokens js).foldlM step (.afterItem items, frames) =
      some (resume (.array (items.reverse ++ js)) frames) := by
  match js with
  | [] => simp [itemTokens, step]
  | j :: js =>
    have hj : j.toTokens.foldlM step (.value, .array items :: frames) =
        some (.afterItem (j :: items), frames) :=
      run_toTokens j (.array items :: frames)
    simp only [itemTokens, List.foldlM_cons, step, List.foldlM_append, hj, Option.bind_eq_bind,
      Option.bind_some, run_itemTokens js (j :: items) frames, List.reverse_cons, List.append_assoc,
      List.singleton_append]

/-- The tokens of the further members complete an object. -/
theorem run_memberTokens (ms members : List (Option String × Json)) (frames : List Frame) :
    (memberTokens ms).foldlM step (.afterMember members, frames) =
      some (resume (.object (members.reverse ++ ms)) frames) := by
  match ms with
  | [] => simp [memberTokens, step]
  | (name, j) :: ms =>
    have hj : j.toTokens.foldlM step (.value, .object members name :: frames) =
        some (.afterMember ((name, j) :: members), frames) :=
      run_toTokens j (.object members name :: frames)
    simp only [memberTokens, List.foldlM_cons, step, List.foldlM_append, hj, Option.bind_eq_bind,
      Option.bind_some, run_memberTokens ms ((name, j) :: members) frames, List.reverse_cons,
      List.append_assoc, List.singleton_append]

end

/-- The tokens of a value are read as it, and no other tokens are. -/
theorem ofTokens?_eq_some_iff {ts : List Token} {j : Json} :
    ofTokens? ts = some j ↔ ts = j.toTokens := by
  constructor
  · intro h
    unfold ofTokens? at h
    split at h
    · next j' frames hrun =>
      obtain rfl := Option.some.inj h
      obtain ⟨hs, hts⟩ := tokensRead_run hrun trivial
      obtain rfl : frames = [] := hs
      simpa [tokensRead, Expectation.tokens] using hts.symm
    · cases h
  · rintro rfl
    rw [ofTokens?, run_toTokens]
    rfl

/-! ### No two values without parts stand side by side -/

/-- What comes after a value is none. -/
theorem step_resume_scalar (j : Json) (frames : List Frame) (s : Scalar) :
    step (resume j frames) (.scalar s) = none := by
  match frames with
  | [] | .array _ :: _ | .object _ _ :: _ => rfl

/-- A value without parts completes a value or names a member. -/
theorem exists_of_step_scalar {s s' : State} {v : Scalar} (h : step s (.scalar v) = some s') :
    (∃ j frames, s' = resume j frames) ∨
      ∃ members key frames, s' = (.colon members key, frames) := by
  match s with
  | (.value, _) | (.firstItem, _) => exact .inl ⟨_, _, (Option.some.inj h).symm⟩
  | (.firstName, _) | (.name _, _) =>
    cases v with
    | string => exact .inr ⟨_, _, _, (Option.some.inj h).symm⟩
    | _ => cases h
  | (.colon _ _, _) | (.afterItem _, _) | (.afterMember _, _) | (.nothing _, _) => cases h

theorem not_isScalar_of_step {s s₁ s₂ : State} {t u : Token} (ht : step s t = some s₁)
    (hu : step s₁ u = some s₂) : ¬ (t.isScalar = true ∧ u.isScalar = true) := by
  rintro ⟨ht', hu'⟩
  cases t with
  | scalar v =>
    cases u with
    | scalar w =>
      obtain ⟨j, frames, rfl⟩ | ⟨members, key, frames, rfl⟩ := exists_of_step_scalar ht
      · rw [step_resume_scalar] at hu
        cases hu
      · cases hu
    | _ => cases hu'
  | _ => cases ht'

theorem separated_of_run {ts : List Token} {s s' : State} (h : ts.foldlM step s = some s') :
    Token.Separated ts := by
  induction ts generalizing s with
  | nil => exact .nil
  | cons t ts ih =>
    rw [List.foldlM_cons, Option.bind_eq_bind, Option.bind_eq_some_iff] at h
    obtain ⟨s₁, ht, hts⟩ := h
    refine List.isChain_cons.mpr ⟨fun u hu => ?_, ih hts⟩
    obtain ⟨us, rfl⟩ := List.head?_eq_some_iff.mp hu
    rw [List.foldlM_cons, Option.bind_eq_bind, Option.bind_eq_some_iff] at hts
    obtain ⟨s₂, hu, -⟩ := hts
    exact not_isScalar_of_step ht hu

theorem separated_toTokens (j : Json) : Token.Separated j.toTokens :=
  separated_of_run (run_toTokens j [])

/-! ### Texts -/

/-- A text writes a value if it is laid out from the tokens of the value. -/
def Writes (j : Json) (text : String) : Prop := Token.Laid j.toTokens text.toList

/-- A text is parsed as the values that it writes. -/
theorem parse?_eq_some_iff {text : String} {j : Json} : parse? text = some j ↔ j.Writes text := by
  rw [parse?, Option.bind_eq_some_iff]
  constructor
  · rintro ⟨ts, hts, hj⟩
    obtain rfl := ofTokens?_eq_some_iff.mp hj
    exact (Token.ofText?_eq_some_iff (separated_toTokens j)).mp hts
  · intro h
    exact ⟨j.toTokens, (Token.ofText?_eq_some_iff (separated_toTokens j)).mpr h,
      ofTokens?_eq_some_iff.mpr rfl⟩

end Json

end GraphTransform
