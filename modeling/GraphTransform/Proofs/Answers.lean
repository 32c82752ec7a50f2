import GraphTransform.Proofs.Queries

/-!
# Queries and answers

The leaves of a condition are the questions that are written in it, from left to right. Evaluation
puts some of them, in their order, so none of them twice. Only three things keep it from putting all
of them: a conjunction or a disjunction that is decided early, and an error.

A match may have no answer to a question about a variable or a node (`Match.Lacks`). Then the
evaluation ends there and fails with the name of the variable or the node, and it never fails with a
name for any other reason. `Condition.queriesInOrder` says all this, under every match.

The induction over atoms and conditions is done once, for any property of computations that
questions have and that sequencing keeps (`Match.LeafProperty`). Two such properties are needed:
`Traced.Asks`, for a computation that puts given queries if it yields a value, and `Match.EndsAt`,
for what happens at a question without an answer.
-/

namespace GraphTransform

/-! ### Statements -/

/-- The match has no answer to a query, which asks about a name. It always knows whether there is an
edge. -/
inductive Match.Lacks (m : Match) : Query → String → Prop where
  /-- The variable is not bound. -/
  | binding {x : String} : m.binding x = none → m.Lacks (.binding x) x
  /-- The node has no degree. -/
  | degree {direction : Direction} {n : String} :
      m.degree direction n = none → m.Lacks (.degree direction n) n

theorem Match.Lacks.unique {m : Match} {q : Query} {n n' : String} (h : m.Lacks q n)
    (h' : m.Lacks q n') : n = n' := by
  cases h with
  | binding => cases h' with | binding => rfl
  | degree => cases h' with | degree => rfl

/-- The conditions in the tree of a condition, itself included. -/
def Condition.subconditions : Condition → List Condition
  | .not c => .not c :: c.subconditions
  | .and c d => .and c d :: (c.subconditions ++ d.subconditions)
  | .or c d => .or c d :: (c.subconditions ++ d.subconditions)
  | c => [c]

theorem Condition.mem_subconditions_self (c : Condition) : c ∈ c.subconditions := by
  cases c <;> exact List.mem_cons_self

/-- The condition contains no conjunction and no disjunction. -/
def Condition.NeverSkips (c : Condition) : Prop :=
  ∀ d e, .and d e ∉ c.subconditions ∧ .or d e ∉ c.subconditions

theorem Condition.NeverSkips.of_not {c : Condition} (h : (Condition.not c).NeverSkips) :
    c.NeverSkips := by
  intro d e
  obtain ⟨hand, hor⟩ := h d e
  exact ⟨fun hmem => hand (List.mem_cons_of_mem _ hmem),
    fun hmem => hor (List.mem_cons_of_mem _ hmem)⟩

/-- How the evaluation of a condition puts its queries to a match. -/
structure Condition.QueriesInOrder (c : Condition) (vs : Variables) (m : Match) : Prop where
  /-- The queries are some of the leaves, in their order. -/
  sublist : (c.eval vs m).trace.Sublist c.leaves
  /-- No query is put more often than it is written. -/
  count_le : ∀ q, (c.eval vs m).trace.count q ≤ c.leaves.count q
  /-- Where nothing may be skipped, a condition that has a value has put all its leaves. -/
  all_leaves : c.NeverSkips → ∀ b, (c.eval vs m).result = .ok b → (c.eval vs m).trace = c.leaves
  /-- Only conditions about edges ask for edges. -/
  edges : ∀ s t l, .hasEdge s t l ∈ (c.eval vs m).trace → .edge s t l ∈ c.subconditions
  /-- A query without an answer is the last one, and the evaluation fails with the name that it asks
  about. -/
  unanswered : ∀ before q after n, (c.eval vs m).trace = before ++ q :: after → m.Lacks q n →
    after = [] ∧ (c.eval vs m).result = .error (.unbound n)
  /-- If the evaluation fails with a name, its last query asks about this name and has no answer. -/
  unbound : ∀ n, (c.eval vs m).result = .error (.unbound n) →
    ∃ before q, (c.eval vs m).trace = before ++ [q] ∧ m.Lacks q n

/-! ### Properties of evaluations -/

/-- The outcome is not that of a query without an answer. -/
def IsBound {α : Type} (x : Except EvalError α) : Prop := ∀ n, x ≠ .error (.unbound n)

theorem isBound_ok {α : Type} (a : α) : IsBound (.ok a) := by
  intro n h
  cases h

theorem isBound_checked (n : Int) : IsBound (checked n) := by
  unfold checked
  cases toInt64? n with
  | some i => exact isBound_ok i
  | none =>
    intro n h
    cases h

theorem ArithOp.isBound_apply (op : ArithOp) (i j : Int64) : IsBound (op.apply i j) := by
  cases op with
  | div =>
    rw [apply]
    split
    · intro n h
      cases h
    · exact isBound_checked _
  | _ => exact isBound_checked _

namespace Atom

theorem isBound_single (x : String) (values : List Value) : IsBound (single x values) := by
  intro n h
  unfold single at h
  split at h <;> cases h

theorem isBound_measure (type : Option ValueType) (x : String) (values : List Value) :
    IsBound (measure type x values) := by
  unfold measure
  split
  · split
    · exact isBound_checked _
    · intro n h
      cases h
  · exact isBound_checked _

theorem isBound_asInteger (a : Atom) (v : Value) : IsBound (a.asInteger v) := by
  intro n h
  cases v <;> cases h

theorem isBound_asString (a : Atom) (v : Value) : IsBound (a.asString v) := by
  intro n h
  cases v <;> cases h

end Atom

/-- A property of computations and the leaves that they are about. Questions have it, so has all
that is done between them, and sequencing keeps it. -/
structure Match.LeafProperty (m : Match) (P : (α : Type) → List Query → Evaluation α → Prop) :
    Prop where
  /-- A step that asks nothing. -/
  lift {α : Type} (y : Except EvalError α) : IsBound y → P α [] (liftM y)
  /-- A sequence. -/
  bind {α β : Type} {x : Evaluation α} {f : α → Evaluation β} {es es' : List Query} :
    P α es x → (∀ a, P β es' (f a)) → P β (es ++ es') (x >>= f)
  /-- A question about a variable. -/
  askBinding (x : String) : P (List Value) [.binding x] (m.askBinding x)
  /-- A question about a node. -/
  askDegree (direction : Direction) (n : String) :
    P Int64 [.degree direction n] (m.askDegree direction n)
  /-- A question about an edge. -/
  askEdge (s t : String) (l : Option Label) : P Bool [.hasEdge s t l] (m.askEdge s t l)

namespace Match.LeafProperty

variable {m : Match} {P : (α : Type) → List Query → Evaluation α → Prop} (h : m.LeafProperty P)

include h

theorem pure {α : Type} (a : α) : P α [] (Pure.pure a) := h.lift (.ok a) (isBound_ok a)

/-- The last part of a sequence may ask nothing. -/
theorem bind_nil {α β : Type} {x : Evaluation α} {f : α → Evaluation β} {es : List Query}
    (hx : P α es x) (hf : ∀ a, P β [] (f a)) : P β es (x >>= f) := by
  have hbind := h.bind hx hf
  rwa [List.append_nil] at hbind

/-- The first part of a sequence may ask nothing. -/
theorem lift_bind {α β : Type} {y : Except EvalError α} {f : α → Evaluation β} {es : List Query}
    (hy : IsBound y) (hf : ∀ a, P β es (f a)) : P β es ((liftM y : Evaluation α) >>= f) :=
  h.bind (h.lift y hy) hf

variable (vs : Variables)

/-- The evaluation of an atom has the property, with the leaves of the atom. -/
theorem eval (a : Atom) : P Value a.leaves (a.eval vs m) := by
  induction a with
  | int i => exact h.pure _
  | str s => exact h.pure _
  | var x => exact h.bind_nil (h.askBinding x) fun values => h.lift _ (Atom.isBound_single x values)
  | degree direction n => exact h.bind_nil (h.askDegree direction n) fun k => h.pure _
  | length x =>
    refine h.bind_nil (h.askBinding x) fun values => ?_
    exact h.lift_bind (Atom.isBound_measure _ x values) fun k => h.pure _
  | neg a ih =>
    refine h.bind_nil ih fun v => h.lift_bind (a.isBound_asInteger v) fun i => ?_
    exact h.lift_bind (isBound_checked _) fun k => h.pure _
  | arith op a b iha ihb =>
    refine h.bind iha fun v => h.lift_bind (a.isBound_asInteger v) fun i => ?_
    refine h.bind_nil ihb fun w => h.lift_bind (b.isBound_asInteger w) fun j => ?_
    exact h.lift_bind (op.isBound_apply i j) fun k => h.pure _
  | concat a b iha ihb =>
    refine h.bind iha fun v => h.lift_bind (a.isBound_asString v) fun s => ?_
    exact h.bind_nil ihb fun w => h.lift_bind (b.isBound_asString w) fun t => h.pure _

theorem evalInteger (a : Atom) : P Int64 a.leaves (a.evalInteger vs m) :=
  h.bind_nil (h.eval vs a) fun v => h.lift _ (a.isBound_asInteger v)

theorem evalElement (a : Atom) : P (List Value) a.leaves (a.evalElement vs m) := by
  unfold Atom.evalElement
  split
  · exact h.askBinding _
  · exact h.bind_nil (h.eval vs _) fun v => h.pure _

theorem evalList (as : List Atom) :
    P (List Value) (as.flatMap Atom.leaves) (Atom.evalList vs m as) := by
  induction as with
  | nil => exact h.pure _
  | cons a rest ih =>
    rw [List.flatMap_cons]
    exact h.bind (h.evalElement vs a) fun values => h.bind_nil ih fun others => h.pure _

/-- The evaluation of a condition has the property, with the leaves of the condition, if nothing may
be skipped or if leaves may be missing. -/
theorem evalCondition {c : Condition} (hskip : c.NeverSkips ∨ ∀ es b, P Bool es (Pure.pure b)) :
    P Bool c.leaves (c.eval vs m) := by
  induction c with
  | is test x => exact h.bind_nil (h.askBinding x) fun values => h.pure _
  | edge s t l => exact h.askEdge s t l
  | eq l r =>
    exact h.bind (h.evalList vs l) fun ls => h.bind_nil (h.evalList vs r) fun rs => h.pure _
  | neq l r =>
    exact h.bind (h.evalList vs l) fun ls => h.bind_nil (h.evalList vs r) fun rs => h.pure _
  | cmp op l r =>
    exact h.bind (h.evalInteger vs l) fun i => h.bind_nil (h.evalInteger vs r) fun j => h.pure _
  | not c ih => exact h.bind_nil (ih (hskip.imp Condition.NeverSkips.of_not id)) fun b => h.pure _
  | and c d ihc ihd =>
    rcases hskip with hnever | hmissing
    · exact absurd (Condition.mem_subconditions_self _) (hnever c d).1
    · refine h.bind (ihc (Or.inr hmissing)) fun b => ?_
      cases b with
      | true => exact ihd (Or.inr hmissing)
      | false => exact hmissing _ false
  | or c d ihc ihd =>
    rcases hskip with hnever | hmissing
    · exact absurd (Condition.mem_subconditions_self _) (hnever c d).2
    · refine h.bind (ihc (Or.inr hmissing)) fun b => ?_
      cases b with
      | true => exact hmissing _ true
      | false => exact ihd (Or.inr hmissing)

end Match.LeafProperty

/-! ### All leaves -/

/-- If the computation yields a value, then it has left these events. -/
def Traced.Asks {ω ε α : Type} (x : Traced ω ε α) (es : List ω) : Prop :=
  ∀ a, x.result = .ok a → x.trace = es

theorem Traced.asks_of_trace {ω ε α : Type} {x : Traced ω ε α} {es : List ω} (h : x.trace = es) :
    x.Asks es :=
  fun _ _ => h

/-- Evaluation asks for the leaves. -/
theorem Match.leafProperty_asks (m : Match) : m.LeafProperty fun _ es x => x.Asks es where
  lift _ _ := Traced.asks_of_trace rfl
  bind hx hf := by
    intro b hb
    obtain ⟨a, ha, hfa⟩ := Traced.result_bind_eq_ok_iff.mp hb
    rw [Traced.trace_bind_of_ok ha, hx a ha, hf a b hfa]
  askBinding _ := Traced.asks_of_trace rfl
  askDegree _ _ := Traced.asks_of_trace rfl
  askEdge _ _ _ := Traced.asks_of_trace rfl

/-! ### Edges -/

theorem Atom.hasEdge_notMem_leaves (a : Atom) (s t : String) (l : Option Label) :
    .hasEdge s t l ∉ a.leaves := by
  induction a with
  | neg a ih => exact ih
  | arith op a b iha ihb => exact fun h => (List.mem_append.mp h).elim iha ihb
  | concat a b iha ihb => exact fun h => (List.mem_append.mp h).elim iha ihb
  | _ => simp [leaves]

/-- The leaves that ask for edges are the subconditions about edges. -/
theorem Condition.hasEdge_mem_leaves_iff {c : Condition} {s t : String} {l : Option Label} :
    .hasEdge s t l ∈ c.leaves ↔ .edge s t l ∈ c.subconditions := by
  have hlist (as : List Atom) : .hasEdge s t l ∉ as.flatMap Atom.leaves := by
    intro h
    obtain ⟨a, -, ha⟩ := List.mem_flatMap.mp h
    exact a.hasEdge_notMem_leaves s t l ha
  induction c with
  | is test x => simp [leaves, subconditions]
  | edge s' t' l' => simp [leaves, subconditions]
  | eq l r => simp [leaves, subconditions, hlist]
  | neq l r => simp [leaves, subconditions, hlist]
  | cmp op l r => simp [leaves, subconditions, Atom.hasEdge_notMem_leaves]
  | not c ih => simpa [leaves, subconditions] using ih
  | and c d ihc ihd => simp [leaves, subconditions, ihc, ihd]
  | or c d ihc ihd => simp [leaves, subconditions, ihc, ihd]

/-! ### Queries without an answer -/

/-- Either the match has answers to all queries of a computation, or it has none to the last one,
and this is why the computation fails. -/
inductive Match.EndsAt {α : Type} (m : Match) (x : Evaluation α) : Prop where
  /-- All queries have answers. -/
  | answered (htrace : ∀ q ∈ x.trace, ∀ n, ¬ m.Lacks q n) (hresult : IsBound x.result)
  /-- All queries before the last one have answers. -/
  | unanswered (before : List Query) {q : Query} {n : String} (htrace : x.trace = before ++ [q])
      (hbefore : ∀ p ∈ before, ∀ n, ¬ m.Lacks p n) (hq : m.Lacks q n)
        (hresult : x.result = .error (.unbound n))

namespace Match.EndsAt

variable {α β : Type} {m : Match} {x : Evaluation α} {f : α → Evaluation β}

/-- Without queries, all of them have answers. -/
theorem of_nil (htrace : x.trace = []) (hresult : IsBound x.result) : m.EndsAt x := by
  refine .answered ?_ hresult
  rw [htrace]
  exact List.forall_mem_nil _

theorem pure (a : α) : m.EndsAt (Pure.pure a : Evaluation α) := of_nil rfl (isBound_ok a)

/-- A sequence goes on only if all queries of its first part have answers. -/
theorem bind (hx : m.EndsAt x) (hf : ∀ a, m.EndsAt (f a)) : m.EndsAt (x >>= f) := by
  cases hx with
  | answered htrace hresult =>
    cases h : x.result with
    | error e =>
      apply answered
      · rw [Traced.trace_bind_of_error h]
        exact htrace
      · rw [Traced.result_bind, h]
        intro n hn
        cases hn
        exact hresult n h
    | ok a =>
      have hres : (x >>= f).result = (f a).result := by
        rw [Traced.result_bind, h]
        rfl
      cases hf a with
      | answered htrace' hresult' =>
        apply answered
        · rw [Traced.trace_bind_of_ok h]
          exact List.forall_mem_append.mpr ⟨htrace, htrace'⟩
        · rw [hres]
          exact hresult'
      | unanswered before htrace' hbefore' hq' hresult' =>
        refine unanswered (x.trace ++ before) ?_
          (List.forall_mem_append.mpr ⟨htrace, hbefore'⟩) hq' ?_
        · rw [Traced.trace_bind_of_ok h, htrace', List.append_assoc]
        · rw [hres, hresult']
  | unanswered before htrace hbefore hq hresult =>
    refine unanswered before ?_ hbefore hq ?_
    · rw [Traced.trace_bind_of_error hresult, htrace]
    · rw [Traced.result_bind, hresult]
      rfl

theorem of_answer {q : Query} {y : Except EvalError α} (hq : ∀ n, ¬ m.Lacks q n) (hy : IsBound y) :
    m.EndsAt (⟨[q], y⟩ : Evaluation α) :=
  answered (List.forall_mem_singleton.mpr hq) hy

theorem of_lacks {q : Query} {n : String} (hq : m.Lacks q n) :
    m.EndsAt (⟨[q], .error (.unbound n)⟩ : Evaluation α) :=
  unanswered [] rfl (List.forall_mem_nil _) hq rfl

theorem askBinding (x : String) : m.EndsAt (m.askBinding x) := by
  rw [Match.askBinding]
  cases h : m.binding x with
  | some values =>
    apply of_answer _ (isBound_ok values)
    intro n hlacks
    cases hlacks with
    | binding hnone => cases h.symm.trans hnone
  | none => exact of_lacks (.binding h)

theorem askDegree (direction : Direction) (n : String) : m.EndsAt (m.askDegree direction n) := by
  rw [Match.askDegree]
  cases h : m.degree direction n with
  | some k =>
    apply of_answer _ (isBound_checked k)
    intro n hlacks
    cases hlacks with
    | degree hnone => cases h.symm.trans hnone
  | none => exact of_lacks (.degree h)

theorem askEdge (s t : String) (l : Option Label) : m.EndsAt (m.askEdge s t l) := by
  apply of_answer _ (isBound_ok _)
  intro n hlacks
  cases hlacks

/-- A query without an answer is the last one, and the computation fails with its name. -/
theorem last (h : m.EndsAt x) {before after : List Query} {q : Query} {n : String}
    (htrace : x.trace = before ++ q :: after) (hq : m.Lacks q n) :
    after = [] ∧ x.result = .error (.unbound n) := by
  cases h with
  | answered hanswers =>
    have hmem : q ∈ x.trace := by
      rw [htrace]
      exact List.mem_append_right before List.mem_cons_self
    exact absurd hq (hanswers q hmem n)
  | unanswered before' htrace' hbefore' hq' hresult' =>
    rw [htrace] at htrace'
    obtain rfl | ⟨init, z, rfl⟩ := List.eq_nil_or_concat after
    · obtain ⟨-, heq⟩ := List.append_inj' htrace' rfl
      obtain rfl := List.singleton_inj.mp heq
      rw [hq.unique hq']
      exact ⟨rfl, hresult'⟩
    · -- with another query after it, it would be among those that have answers
      rw [List.concat_eq_append, ← List.cons_append, ← List.append_assoc] at htrace'
      obtain ⟨hbefore, -⟩ := List.append_inj' htrace' rfl
      have hmem : q ∈ before' := by
        rw [← hbefore]
        exact List.mem_append_right before List.mem_cons_self
      exact absurd hq (hbefore' q hmem n)

/-- A computation that fails with a name has put a query about it, as the last one, that has no
answer. -/
theorem exists_last (h : m.EndsAt x) {n : String} (hresult : x.result = .error (.unbound n)) :
    ∃ before q, x.trace = before ++ [q] ∧ m.Lacks q n := by
  cases h with
  | answered _ hbound => exact absurd hresult (hbound n)
  | unanswered before htrace _ hq hresult' =>
    cases hresult.symm.trans hresult'
    exact ⟨before, _, htrace, hq⟩

end Match.EndsAt

/-- Evaluation ends at the first query without an answer. -/
theorem Match.leafProperty_endsAt (m : Match) : m.LeafProperty fun _ _ x => m.EndsAt x where
  lift _ h := .of_nil rfl h
  bind hx hf := .bind hx hf
  askBinding x := .askBinding x
  askDegree direction n := .askDegree direction n
  askEdge s t l := .askEdge s t l

/-- **A condition fails with a name exactly at a query without an answer.** -/
theorem Condition.endsAt_eval (c : Condition) (vs : Variables) (m : Match) :
    m.EndsAt (c.eval vs m) :=
  m.leafProperty_endsAt.evalCondition vs (Or.inr fun _ b => .pure b)

/-- **A condition puts its leaves as queries**, in their order and each at most once, and all of
them if nothing is skipped and no error occurs; it stops at the first query without an answer, and
with its name. -/
theorem Condition.queriesInOrder (c : Condition) (vs : Variables) (m : Match) :
    c.QueriesInOrder vs m where
  sublist := c.trace_eval_sublist vs m
  count_le q := (c.trace_eval_sublist vs m).count_le q
  all_leaves h := m.leafProperty_asks.evalCondition vs (Or.inl h)
  edges _ _ _ h := hasEdge_mem_leaves_iff.mp ((c.trace_eval_sublist vs m).subset h)
  unanswered _ _ _ _ htrace hq := (c.endsAt_eval vs m).last htrace hq
  unbound _ hresult := (c.endsAt_eval vs m).exists_last hresult

/-- The quotient of a degree by itself is not smaller than the length of `l`. -/
def quotientNotBelowLength : Condition :=
  .not (.cmp .less (.arith .div (.degree .incoming "n") (.degree .incoming "n")) (.length "l"))

/-- A match that binds `l` to some values, or to none, and in which two edges enter every node. -/
def twoEntriesMatch (values : Option (List Value)) : Match where
  binding x := if x = "l" then values else none
  degree _ _ := some 2
  hasEdge _ _ _ := false

/-- The degree is asked for twice, as it is written, and then the length; if `l` is not bound, this
is the error. -/
theorem Condition.queriesInOrder_quotient :
    (quotientNotBelowLength.eval .empty (twoEntriesMatch (some []))).trace =
      quotientNotBelowLength.leaves ∧
    (quotientNotBelowLength.eval .empty (twoEntriesMatch none)).result = .error (.unbound "l") ∧
    ∃ before q, (quotientNotBelowLength.eval .empty (twoEntriesMatch none)).trace = before ++ [q] ∧
      (twoEntriesMatch none).Lacks q "l" := by
  have hskips : quotientNotBelowLength.NeverSkips := by
    intro d e
    simp [quotientNotBelowLength, subconditions]
  refine ⟨?_, rfl, ?_⟩
  · have horder := queriesInOrder quotientNotBelowLength .empty (twoEntriesMatch (some []))
    exact horder.all_leaves hskips true rfl
  · have horder := queriesInOrder quotientNotBelowLength .empty (twoEntriesMatch none)
    exact horder.unbound "l" rfl

end GraphTransform
