/-!
# Traced computations

A traced computation leaves a list of events and then yields a value or fails. What it did before
a failure stays in its trace. Evaluation leaves the queries put to a match, lowering the records of
its log, and the processing of files what it prints and reports.

The lemmas say how the trace and the result of a sequence come from those of its parts, and that
sequencing obeys the monad laws.
-/

namespace GraphTransform

/-- A sequence of outcomes is a value if both parts are. -/
theorem bind_eq_ok_iff {ε α β : Type} {x : Except ε α} {f : α → Except ε β} {b : β} :
    x >>= f = .ok b ↔ ∃ a, x = .ok a ∧ f a = .ok b := by
  cases x <;> simp [bind, Except.bind]

/-- A computation that leaves events of type `ω` and yields an `α` or fails with an `ε`. -/
structure Traced (ω ε α : Type) where
  /-- The events, in the order in which they happen. -/
  trace : List ω
  /-- The outcome. -/
  result : Except ε α

namespace Traced

variable {ω ε ε' α β γ : Type}

/-- The computation that does nothing and yields a value. -/
protected def pure (a : α) : Traced ω ε α := ⟨[], .ok a⟩

/-- Run a computation and, if it yields a value, the computation that follows. -/
protected def bind (x : Traced ω ε α) (f : α → Traced ω ε β) : Traced ω ε β :=
  match x.result with
  | .ok a => ⟨x.trace ++ (f a).trace, (f a).result⟩
  | .error e => ⟨x.trace, .error e⟩

instance : Monad (Traced ω ε) where
  pure := Traced.pure
  bind := Traced.bind

/-- The computation that leaves one event. -/
def emit (event : ω) : Traced ω ε Unit := ⟨[event], .ok ()⟩

/-- The computation that leaves some events. -/
def emitAll (events : List ω) : Traced ω ε Unit := ⟨events, .ok ()⟩

/-- The computation that fails. -/
def fail (error : ε) : Traced ω ε α := ⟨[], .error error⟩

/-- The outcome without any event. -/
def ofExcept (outcome : Except ε α) : Traced ω ε α := ⟨[], outcome⟩

instance : MonadLift (Except ε) (Traced ω ε) where
  monadLift := ofExcept

/-- Attribute a failure, leaving further events after it. -/
def onError (x : Traced ω ε α) (f : ε → List ω × ε') : Traced ω ε' α :=
  match x.result with
  | .ok a => ⟨x.trace, .ok a⟩
  | .error e => ⟨x.trace ++ (f e).1, .error (f e).2⟩

@[ext] theorem ext {x y : Traced ω ε α} (ht : x.trace = y.trace) (hr : x.result = y.result) :
    x = y := by
  cases x; cases y; simp_all

@[simp] theorem trace_pure (a : α) : (pure a : Traced ω ε α).trace = [] := rfl

@[simp] theorem result_pure (a : α) : (pure a : Traced ω ε α).result = .ok a := rfl

@[simp] theorem trace_emit (event : ω) : (emit event : Traced ω ε Unit).trace = [event] := rfl

@[simp] theorem result_emit (event : ω) : (emit event : Traced ω ε Unit).result = .ok () := rfl

@[simp] theorem trace_emitAll (events : List ω) :
    (emitAll events : Traced ω ε Unit).trace = events := rfl

@[simp] theorem result_emitAll (events : List ω) :
    (emitAll events : Traced ω ε Unit).result = .ok () := rfl

@[simp] theorem trace_liftM (x : Except ε α) : (liftM x : Traced ω ε α).trace = [] := rfl

@[simp] theorem result_liftM (x : Except ε α) : (liftM x : Traced ω ε α).result = x := rfl

/-- The result of a sequence is the sequence of the results. -/
@[simp] theorem result_bind (x : Traced ω ε α) (f : α → Traced ω ε β) :
    (x >>= f).result = x.result >>= fun a => (f a).result := by
  change (Traced.bind x f).result = _
  unfold Traced.bind
  cases x.result <;> rfl

/-- A sequence yields a value if both parts do. -/
theorem result_bind_eq_ok_iff {x : Traced ω ε α} {f : α → Traced ω ε β} {b : β} :
    (x >>= f).result = .ok b ↔ ∃ a, x.result = .ok a ∧ (f a).result = .ok b := by
  rw [result_bind, bind_eq_ok_iff]

/-- After a value, the events of the rest follow. -/
theorem trace_bind_of_ok {x : Traced ω ε α} {a : α} (h : x.result = .ok a)
    (f : α → Traced ω ε β) : (x >>= f).trace = x.trace ++ (f a).trace := by
  change (Traced.bind x f).trace = _
  unfold Traced.bind
  rw [h]

/-- After a failure, nothing follows. -/
theorem trace_bind_of_error {x : Traced ω ε α} {e : ε} (h : x.result = .error e)
    (f : α → Traced ω ε β) : (x >>= f).trace = x.trace := by
  change (Traced.bind x f).trace = _
  unfold Traced.bind
  rw [h]

/-- A last part without events adds none. -/
theorem trace_bind_eq {x : Traced ω ε α} {f : α → Traced ω ε β} (hf : ∀ a, (f a).trace = []) :
    (x >>= f).trace = x.trace := by
  cases h : x.result with
  | ok a => rw [trace_bind_of_ok h, hf, List.append_nil]
  | error e => rw [trace_bind_of_error h]

/-- The events of a sequence are those of its first part and, after a value, those of the rest. -/
theorem mem_trace_bind {x : Traced ω ε α} {f : α → Traced ω ε β} {event : ω} :
    event ∈ (x >>= f).trace ↔ event ∈ x.trace ∨ ∃ a, x.result = .ok a ∧ event ∈ (f a).trace := by
  cases h : x.result with
  | ok a => simp [trace_bind_of_ok h]
  | error e => simp [trace_bind_of_error h]

private theorem id_map_eq (x : Traced ω ε α) : id <$> x = x := by
  change Traced.bind x (fun a => Traced.pure a) = x
  unfold Traced.bind
  cases h : x.result <;> ext1 <;> simp [Traced.pure, h]

private theorem pure_bind_eq (a : α) (f : α → Traced ω ε β) : pure a >>= f = f a := by
  change Traced.bind (Traced.pure a) f = f a
  simp [Traced.bind, Traced.pure]

private theorem bind_assoc_eq (x : Traced ω ε α) (f : α → Traced ω ε β) (g : β → Traced ω ε γ) :
    x >>= f >>= g = x >>= fun a => f a >>= g := by
  change Traced.bind (Traced.bind x f) g = Traced.bind x fun a => Traced.bind (f a) g
  simp only [Traced.bind]
  cases x.result with
  | error e => rfl
  | ok a => cases h : (f a).result <;> simp [h]

instance : LawfulMonad (Traced ω ε) :=
  LawfulMonad.mk' _ id_map_eq pure_bind_eq bind_assoc_eq

/-- Attributing failures changes no value. -/
theorem result_onError_eq_ok_iff {x : Traced ω ε α} {f : ε → List ω × ε'} {a : α} :
    (x.onError f).result = .ok a ↔ x.result = .ok a := by
  unfold onError
  cases x.result <;> simp

/-- A failure is the one that is attributed. -/
theorem result_onError_eq_error_iff {x : Traced ω ε α} {f : ε → List ω × ε'} {e' : ε'} :
    (x.onError f).result = .error e' ↔ ∃ e, x.result = .error e ∧ (f e).2 = e' := by
  unfold onError
  cases x.result <;> simp

/-- Attributing a failure adds its events. -/
theorem mem_trace_onError {x : Traced ω ε α} {f : ε → List ω × ε'} {event : ω} :
    event ∈ (x.onError f).trace ↔ event ∈ x.trace ∨ ∃ e, x.result = .error e ∧ event ∈ (f e).1 := by
  unfold onError
  cases x.result <;> simp

@[simp] theorem result_map (f : α → β) (x : Traced ω ε α) :
    (f <$> x).result = f <$> x.result := by
  rw [← bind_pure_comp, result_bind]
  cases x.result <;> rfl

@[simp] theorem trace_map (f : α → β) (x : Traced ω ε α) : (f <$> x).trace = x.trace := by
  rw [← bind_pure_comp]
  cases h : x.result with
  | ok a => rw [trace_bind_of_ok h, trace_pure, List.append_nil]
  | error e => rw [trace_bind_of_error h]

end Traced

end GraphTransform
