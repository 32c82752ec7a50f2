import GraphTransform.Condition.Eval

/-!
# What an evaluation depends on

Evaluating a condition under a match yields what the answers to its queries say, and nothing else
goes into it. If another match answers the queries that were put in the same way, then evaluation
under it yields the same value or the same error, and puts the same queries
(`Condition.eval_eq_of_agree`). What the matches say about parts that were skipped, because a
conjunction or a disjunction was decided or an error had occurred, has no influence.

Of the declared variables only one thing matters: whether the length of a variable counts characters
or values. Variables in the label of an edge do not matter at all, because labels are not evaluated.

Two computations are compared by `Traced.SameIf`: the second is the first one if all events of the
first have a property. That is kept by sequencing, because the events of a sequence are those of its
parts.
-/

namespace GraphTransform

/-! ### Statements -/

/-- The second match answers the query as the first one does. -/
def Match.Agree (m m' : Match) : Query → Prop
  | .binding x => m'.binding x = m.binding x
  | .degree direction n => m'.degree direction n = m.degree direction n
  | .hasEdge s t l => m'.hasEdge s t l = m.hasEdge s t l

/-- The length of the variable counts characters: it is declared as a string or as a character. -/
def Variables.CountsCharacters (vs : Variables) (x : String) : Prop :=
  vs.type? x = some .string ∨ vs.type? x = some .character

/-- The variables whose length is taken in an atom. -/
def Atom.lengths : Atom → List String
  | .int _ => []
  | .str _ => []
  | .var _ => []
  | .degree _ _ => []
  | .length x => [x]
  | .neg a => a.lengths
  | .arith _ a b => a.lengths ++ b.lengths
  | .concat a b => a.lengths ++ b.lengths

/-- The variables whose length is taken in an operand of a condition. -/
def Condition.lengths : Condition → List String
  | .is _ _ => []
  | .edge _ _ _ => []
  | .eq l r => l.flatMap Atom.lengths ++ r.flatMap Atom.lengths
  | .neq l r => l.flatMap Atom.lengths ++ r.flatMap Atom.lengths
  | .cmp _ l r => l.lengths ++ r.lengths
  | .not c => c.lengths
  | .and c d => c.lengths ++ d.lengths
  | .or c d => c.lengths ++ d.lengths

/-! ### Computations -/

namespace Traced

variable {ω ε α β : Type}

/-- If all events of `x` have the property `p`, then `y` is the same computation. -/
def SameIf (p : ω → Prop) (x y : Traced ω ε α) : Prop := (∀ event ∈ x.trace, p event) → y = x

/-- A sequence depends on its second part only for the value of the first. -/
theorem bind_congr_of_result {x : Traced ω ε α} {f g : α → Traced ω ε β}
    (h : ∀ a, x.result = .ok a → g a = f a) : x >>= g = x >>= f := by
  cases hx : x.result with
  | ok a =>
    have hfg := h a hx
    ext1
    · rw [trace_bind_of_ok hx, trace_bind_of_ok hx, hfg]
    · rw [result_bind, result_bind, hx]
      exact congrArg result hfg
  | error e =>
    ext1
    · rw [trace_bind_of_error hx, trace_bind_of_error hx]
    · rw [result_bind, result_bind, hx]
      rfl

namespace SameIf

variable {p : ω → Prop}

theorem refl (x : Traced ω ε α) : SameIf p x x := fun _ => rfl

/-- Sequences are the same if their first parts are, and what follows each value is. -/
theorem bind {x y : Traced ω ε α} {f g : α → Traced ω ε β} (hxy : SameIf p x y)
    (hfg : ∀ a, SameIf p (f a) (g a)) : SameIf p (x >>= f) (y >>= g) := by
  intro h
  have hx : y = x := hxy fun event he => h event (mem_trace_bind.mpr (Or.inl he))
  rw [hx]
  apply bind_congr_of_result
  intro a ha
  exact hfg a fun event he => h event (mem_trace_bind.mpr (Or.inr ⟨a, ha, he⟩))

end SameIf

end Traced

/-! ### Evaluation -/

section Evaluation

variable {vs vs' : Variables} (m m' : Match)

namespace Match

theorem sameIf_askBinding (x : String) :
    (m.askBinding x).SameIf (m.Agree m') (m'.askBinding x) := by
  intro h
  have hx : m'.binding x = m.binding x := h (.binding x) (List.mem_singleton_self _)
  rw [askBinding, askBinding, hx]

theorem sameIf_askDegree (direction : Direction) (n : String) :
    (m.askDegree direction n).SameIf (m.Agree m') (m'.askDegree direction n) := by
  intro h
  have hn : m'.degree direction n = m.degree direction n :=
    h (.degree direction n) (List.mem_singleton_self _)
  rw [askDegree, askDegree, hn]

theorem sameIf_askEdge (s t : String) (l : Option Label) :
    (m.askEdge s t l).SameIf (m.Agree m') (m'.askEdge s t l) := by
  intro h
  have he : m'.hasEdge s t l = m.hasEdge s t l := h (.hasEdge s t l) (List.mem_singleton_self _)
  rw [askEdge, askEdge, he]

end Match

namespace Atom

/-- A length depends on the declaration only in what it counts. -/
theorem measure_congr {x : String} (hx : vs.CountsCharacters x ↔ vs'.CountsCharacters x)
    (values : List Value) : measure (vs'.type? x) x values = measure (vs.type? x) x values :=
  ite_congr (propext hx.symm) (fun _ => rfl) (fun _ => rfl)

theorem sameIf_eval {a : Atom}
    (h : ∀ x ∈ a.lengths, vs.CountsCharacters x ↔ vs'.CountsCharacters x) :
    (a.eval vs m).SameIf (m.Agree m') (a.eval vs' m') := by
  induction a with
  | int i => exact .refl _
  | str s => exact .refl _
  | var x => exact .bind (m.sameIf_askBinding m' x) fun values => .refl _
  | degree direction n => exact .bind (m.sameIf_askDegree m' direction n) fun k => .refl _
  | length x =>
    refine .bind (m.sameIf_askBinding m' x) fun values => ?_
    rw [measure_congr (h x (List.mem_singleton_self x))]
    exact .refl _
  | neg a ih => exact .bind (ih h) fun v => .refl _
  | arith op a b iha ihb =>
    obtain ⟨ha, hb⟩ := List.forall_mem_append.mp h
    exact .bind (iha ha) fun v => .bind (.refl _) fun i => .bind (ihb hb) fun w => .refl _
  | concat a b iha ihb =>
    obtain ⟨ha, hb⟩ := List.forall_mem_append.mp h
    exact .bind (iha ha) fun v => .bind (.refl _) fun s => .bind (ihb hb) fun w => .refl _

theorem sameIf_evalInteger {a : Atom}
    (h : ∀ x ∈ a.lengths, vs.CountsCharacters x ↔ vs'.CountsCharacters x) :
    (a.evalInteger vs m).SameIf (m.Agree m') (a.evalInteger vs' m') :=
  .bind (sameIf_eval m m' h) fun _ => .refl _

theorem sameIf_evalElement {a : Atom}
    (h : ∀ x ∈ a.lengths, vs.CountsCharacters x ↔ vs'.CountsCharacters x) :
    (a.evalElement vs m).SameIf (m.Agree m') (a.evalElement vs' m') := by
  have hsingle : (do let v ← a.eval vs m; return [v] : Evaluation (List Value)).SameIf (m.Agree m')
      (do let v ← a.eval vs' m'; return [v]) := .bind (sameIf_eval m m' h) fun v => .refl _
  cases a with
  | var x => exact m.sameIf_askBinding m' x
  | _ => exact hsingle

theorem sameIf_evalList {as : List Atom}
    (h : ∀ x ∈ as.flatMap lengths, vs.CountsCharacters x ↔ vs'.CountsCharacters x) :
    (evalList vs m as).SameIf (m.Agree m') (evalList vs' m' as) := by
  induction as with
  | nil => exact .refl _
  | cons a rest ih =>
    rw [List.flatMap_cons] at h
    obtain ⟨ha, hrest⟩ := List.forall_mem_append.mp h
    exact .bind (sameIf_evalElement m m' ha) fun values => .bind (ih hrest) fun others => .refl _

end Atom

/-- A condition is evaluated in the same way if the queries are answered in the same way. -/
theorem Condition.sameIf_eval {c : Condition}
    (h : ∀ x ∈ c.lengths, vs.CountsCharacters x ↔ vs'.CountsCharacters x) :
    (c.eval vs m).SameIf (m.Agree m') (c.eval vs' m') := by
  induction c with
  | is test x => exact .bind (m.sameIf_askBinding m' x) fun values => .refl _
  | edge s t l => exact m.sameIf_askEdge m' s t l
  | eq l r =>
    obtain ⟨hl, hr⟩ := List.forall_mem_append.mp h
    exact .bind (Atom.sameIf_evalList m m' hl) fun ls =>
      .bind (Atom.sameIf_evalList m m' hr) fun rs => .refl _
  | neq l r =>
    obtain ⟨hl, hr⟩ := List.forall_mem_append.mp h
    exact .bind (Atom.sameIf_evalList m m' hl) fun ls =>
      .bind (Atom.sameIf_evalList m m' hr) fun rs => .refl _
  | cmp op l r =>
    obtain ⟨hl, hr⟩ := List.forall_mem_append.mp h
    exact .bind (Atom.sameIf_evalInteger m m' hl) fun i =>
      .bind (Atom.sameIf_evalInteger m m' hr) fun j => .refl _
  | not c ih => exact .bind (ih h) fun b => .refl _
  | and c d ihc ihd =>
    obtain ⟨hc, hd⟩ := List.forall_mem_append.mp h
    refine .bind (ihc hc) fun b => ?_
    cases b with
    | true => exact ihd hd
    | false => exact .refl _
  | or c d ihc ihd =>
    obtain ⟨hc, hd⟩ := List.forall_mem_append.mp h
    refine .bind (ihc hc) fun b => ?_
    cases b with
    | true => exact .refl _
    | false => exact ihd hd

/-- **An evaluation depends only on the answers to its queries**, and on whether lengths count
characters: if another match answers them in the same way, then evaluation under it yields the same
value or the same error and puts the same queries in the same order. -/
theorem Condition.eval_eq_of_agree {c : Condition} {m m' : Match}
    (hanswers : ∀ q ∈ (c.eval vs m).trace, m.Agree m' q)
    (hlengths : ∀ x ∈ c.lengths, vs.CountsCharacters x ↔ vs'.CountsCharacters x) :
    c.eval vs' m' = c.eval vs m :=
  sameIf_eval m m' hlengths hanswers

end Evaluation

/-- Is the string `s` longer than one character, or is there an edge from `a` to `b`? -/
def longOrEdge : Condition := .or (.cmp .greater (.length "s") (.int 1)) (.edge "a" "b" none)

/-- The table of a string `s`. -/
def stringTable : Variables := ⟨#[⟨"s", .string⟩], .ofList [("s", 0)]⟩

/-- The table of a list `l` and a character `s`. -/
def characterTable : Variables := ⟨#[⟨"l", .list⟩, ⟨"s", .character⟩], .ofList [("l", 0), ("s", 1)]⟩

/-- A match that binds every variable to a string of two characters. -/
def twoCharactersMatch (edges : Bool) : Match where
  binding _ := some [.str "ab"]
  degree _ _ := none
  hasEdge _ _ _ := edges

/-- The string is long, so it is not asked whether there is an edge. -/
theorem Condition.eval_eq_longOrEdge :
    (∀ q ∈ (longOrEdge.eval stringTable (twoCharactersMatch true)).trace,
      (twoCharactersMatch true).Agree (twoCharactersMatch false) q) ∧
    (∀ x ∈ longOrEdge.lengths, stringTable.CountsCharacters x ↔ characterTable.CountsCharacters x) ∧
    longOrEdge.eval characterTable (twoCharactersMatch false) =
      longOrEdge.eval stringTable (twoCharactersMatch true) := by
  have htrace : (longOrEdge.eval stringTable (twoCharactersMatch true)).trace = [.binding "s"] := by
    decide +kernel
  have hanswers : ∀ q ∈ (longOrEdge.eval stringTable (twoCharactersMatch true)).trace,
      (twoCharactersMatch true).Agree (twoCharactersMatch false) q := by
    rw [htrace]
    intro q hq
    rw [List.mem_singleton] at hq
    subst hq
    rfl
  have hlengths : ∀ x ∈ longOrEdge.lengths, stringTable.CountsCharacters x ↔
      characterTable.CountsCharacters x := by
    intro x hx
    have hs : x = "s" := List.mem_singleton.mp hx
    subst hs
    have hstring : stringTable.type? "s" = some .string := by decide +kernel
    have hcharacter : characterTable.type? "s" = some .character := by decide +kernel
    exact iff_of_true (Or.inl hstring) (Or.inr hcharacter)
  exact ⟨hanswers, hlengths, Condition.eval_eq_of_agree hanswers hlengths⟩

end GraphTransform
