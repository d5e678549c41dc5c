import Chainload.Machine

/-!
# What a run answers and leaves

An action that is run on a machine answers, with a value or an error, and leaves memory
(`Action.answer`, `Action.memoryAfter`).

Two runs are related if they answer the same and leave related memories (`Action.Related`); what
they asked of memory and what they logged may differ. This passes through binds, so two programs
whose steps keep memories related are related as a whole. Runs that leave the same memory agree
(`Action.Agree`).
-/

namespace Chainload.Action

variable {ε ε' α β : Type}

/-- What an action returns on a machine, or the error it fails with. -/
def answer (action : Action ε α) (machine : Machine) : Except ε α :=
  match action machine with
  | .ok a _ => .ok a
  | .error e _ => .error e

/-- The memory that an action leaves, whether it returns or fails. -/
def memoryAfter (action : Action ε α) (machine : Machine) : Memory :=
  match action machine with
  | .ok _ left => left.memory
  | .error _ left => left.memory

section Results

variable {action : Action ε α} {machine left : Machine} {a : α} {e : ε}

theorem answer_of_ok (h : action machine = .ok a left) : action.answer machine = .ok a := by
  simp only [answer, h]

theorem answer_of_error (h : action machine = .error e left) :
    action.answer machine = .error e := by
  simp only [answer, h]

theorem memoryAfter_of_ok (h : action machine = .ok a left) :
    action.memoryAfter machine = left.memory := by
  simp only [memoryAfter, h]

theorem memoryAfter_of_error (h : action machine = .error e left) :
    action.memoryAfter machine = left.memory := by
  simp only [memoryAfter, h]

theorem memoryAfter_congr {action' : Action ε α} {machine' : Machine}
    (h : action machine = action' machine') :
    action.memoryAfter machine = action'.memoryAfter machine' := by
  rw [memoryAfter, memoryAfter, h]

theorem ok_of_answer (h : action.answer machine = .ok a) :
    ∃ left, action machine = .ok a left := by
  unfold answer at h
  cases hrun : action machine with
  | ok b left =>
    rw [hrun] at h
    cases h
    exact ⟨left, rfl⟩
  | error e left =>
    rw [hrun] at h
    cases h

theorem error_of_answer (h : action.answer machine = .error e) :
    ∃ left, action machine = .error e left := by
  unfold answer at h
  cases hrun : action machine with
  | ok b left =>
    rw [hrun] at h
    cases h
  | error e' left =>
    rw [hrun] at h
    cases h
    exact ⟨left, rfl⟩

end Results

/-! ## Taking binds apart -/

theorem bind_of_ok {action : Action ε α} {f : α → Action ε β} {machine left : Machine} {a : α}
    (h : action machine = .ok a left) : (action >>= f) machine = f a left := by
  rw [bind_apply, h]

theorem bind_of_error {action : Action ε α} {f : α → Action ε β} {machine left : Machine} {e : ε}
    (h : action machine = .error e left) : (action >>= f) machine = .error e left := by
  rw [bind_apply, h]

/-- A bind returns if both parts do, the second on the machine that the first one leaves. -/
theorem bind_eq_ok_iff {action : Action ε α} {f : α → Action ε β} {machine left : Machine} {b : β} :
    (action >>= f) machine = .ok b left ↔
      ∃ a between, action machine = .ok a between ∧ f a between = .ok b left := by
  constructor
  · intro h
    cases hrun : action machine with
    | ok a between => exact ⟨a, between, rfl, (bind_of_ok hrun).symm.trans h⟩
    | error e between => cases (bind_of_error hrun).symm.trans h
  · rintro ⟨a, between, hrun, h⟩
    rw [bind_of_ok hrun, h]

/-- A bind fails if its first part does, or its second on the machine that the first one leaves. -/
theorem bind_eq_error_iff {action : Action ε α} {f : α → Action ε β} {machine left : Machine}
    {e : ε} :
    (action >>= f) machine = .error e left ↔
      action machine = .error e left ∨
        ∃ a between, action machine = .ok a between ∧ f a between = .error e left := by
  constructor
  · intro h
    cases hrun : action machine with
    | ok a between => exact Or.inr ⟨a, between, rfl, (bind_of_ok hrun).symm.trans h⟩
    | error e' between =>
      cases (bind_of_error hrun).symm.trans h
      exact Or.inl rfl
  · rintro (hrun | ⟨a, between, hrun, h⟩)
    · rw [bind_of_error hrun]
    · rw [bind_of_ok hrun, h]

/-- A bind answers what its parts answer, the second on the machine that the first one leaves. -/
theorem answer_bind {action : Action ε α} {f : α → Action ε β} {g : α → Except ε β}
    {machine : Machine}
    (hf : ∀ a between, action machine = .ok a between → (f a).answer between = g a) :
    (action >>= f).answer machine = action.answer machine >>= g := by
  cases hrun : action machine with
  | ok a between =>
    rw [answer_of_ok hrun, answer, bind_of_ok hrun]
    exact hf a between hrun
  | error e between =>
    rw [answer_of_error hrun, answer_of_error (bind_of_error hrun)]
    rfl

theorem memoryAfter_bind_pure (action : Action ε α) (f : α → β) (machine : Machine) :
    (action >>= fun a => pure (f a)).memoryAfter machine = action.memoryAfter machine := by
  rw [memoryAfter, memoryAfter, bind_apply]
  cases action machine <;> rfl

@[simp] theorem ofExcept_eq_ok_iff {result : Except ε α} {machine left : Machine} {a : α} :
    ofExcept result machine = .ok a left ↔ result = .ok a ∧ left = machine := by
  cases result with
  | ok b => simp [ofExcept_apply, eq_comm]
  | error e => simp [ofExcept_apply]

@[simp] theorem memoryAfter_ofExcept (result : Except ε α) (machine : Machine) :
    (ofExcept result).memoryAfter machine = machine.memory := by
  cases result <;> rfl

theorem answer_ofExcept_bind (result : Except ε α) (f : α → Action ε β) (machine : Machine) :
    (ofExcept result >>= f).answer machine = result >>= fun a => (f a).answer machine := by
  cases result <;> rfl

theorem mapError_of_ok {f : ε → ε'} {action : Action ε α} {machine left : Machine} {a : α}
    (h : action machine = .ok a left) : action.mapError f machine = .ok a left := by
  rw [mapError_apply, h]

theorem mapError_of_error {f : ε → ε'} {action : Action ε α} {machine left : Machine} {e : ε}
    (h : action machine = .error e left) : action.mapError f machine = .error (f e) left := by
  rw [mapError_apply, h]

@[simp] theorem memoryAfter_mapError (f : ε → ε') (action : Action ε α) (machine : Machine) :
    (action.mapError f).memoryAfter machine = action.memoryAfter machine := by
  rw [memoryAfter, memoryAfter, mapError_apply]
  cases action machine <;> rfl

@[simp] theorem memoryAfter_logError (action : Action ε α) (line : ε → Log.Record)
    (machine : Machine) :
    (action.logError line).memoryAfter machine = action.memoryAfter machine := by
  rw [memoryAfter, memoryAfter, logError_apply]
  cases action machine <;> rfl

@[simp] theorem answer_logError (action : Action ε α) (line : ε → Log.Record) (machine : Machine) :
    (action.logError line).answer machine = action.answer machine := by
  rw [answer, answer, logError_apply]
  cases action machine <;> rfl

@[simp] theorem mapError_eq_ok_iff {f : ε → ε'} {action : Action ε α} {machine left : Machine}
    {a : α} : action.mapError f machine = .ok a left ↔ action machine = .ok a left := by
  rw [mapError_apply]
  cases action machine <;> simp

@[simp] theorem logError_eq_ok_iff {action : Action ε α} {line : ε → Log.Record}
    {machine left : Machine} {a : α} :
    action.logError line machine = .ok a left ↔ action machine = .ok a left := by
  rw [logError_apply]
  cases action machine <;> simp

theorem mapError_eq_error_iff {f : ε → ε'} {action : Action ε α} {machine left : Machine}
    {e : ε'} : action.mapError f machine = .error e left ↔
      ∃ cause, action machine = .error cause left ∧ f cause = e := by
  rw [mapError_apply]
  cases action machine with
  | ok a left' => simp
  | error cause left' =>
    simp only [EStateM.Result.error.injEq]
    constructor
    · rintro ⟨rfl, rfl⟩
      exact ⟨cause, ⟨rfl, rfl⟩, rfl⟩
    · rintro ⟨_, ⟨rfl, rfl⟩, rfl⟩
      exact ⟨rfl, rfl⟩

theorem request_of_ok {access : Request} {machine : Machine} {memory : Memory}
    (h : machine.memory.perform access = .ok memory) :
    request access machine =
      .ok () { machine with memory := memory, requests := machine.requests ++ [access] } := by
  simp only [request_apply, h]

theorem request_of_error {access : Request} {machine : Machine} {range : OutOfRange}
    (h : machine.memory.perform access = .error range) :
    request access machine =
      .error range { machine with requests := machine.requests ++ [access] } := by
  simp only [request_apply, h]

/-! ## Related runs -/

/-- The runs of two actions, each on its machine, answer the same and leave related memories. -/
structure Related (R : Memory → Memory → Prop) (first second : Action ε α) (m n : Machine) :
    Prop where
  answer : first.answer m = second.answer n
  memory : R (first.memoryAfter m) (second.memoryAfter n)

namespace Related

variable {R : Memory → Memory → Prop} {first second : Action ε α} {f g : α → Action ε β}
  {m n : Machine}

/-- Runs that are related both return or both fail. -/
theorem cases (h : Related R first second m n) :
    (∃ a m' n', first m = .ok a m' ∧ second n = .ok a n' ∧ R m'.memory n'.memory) ∨
      ∃ e m' n', first m = .error e m' ∧ second n = .error e n' ∧ R m'.memory n'.memory := by
  have hmemory := h.memory
  cases hm : first m with
  | ok a m' =>
    obtain ⟨n', hn⟩ := ok_of_answer (h.answer.symm.trans (answer_of_ok hm))
    rw [memoryAfter_of_ok hm, memoryAfter_of_ok hn] at hmemory
    exact Or.inl ⟨a, m', n', rfl, hn, hmemory⟩
  | error e m' =>
    obtain ⟨n', hn⟩ := error_of_answer (h.answer.symm.trans (answer_of_error hm))
    rw [memoryAfter_of_error hm, memoryAfter_of_error hn] at hmemory
    exact Or.inr ⟨e, m', n', rfl, hn, hmemory⟩

theorem of_ok {a : α} {m' n' : Machine} (hm : first m = .ok a m') (hn : second n = .ok a n')
    (hmemory : R m'.memory n'.memory) : Related R first second m n where
  answer := by rw [answer_of_ok hm, answer_of_ok hn]
  memory := by rwa [memoryAfter_of_ok hm, memoryAfter_of_ok hn]

theorem of_error {e : ε} {m' n' : Machine} (hm : first m = .error e m')
    (hn : second n = .error e n') (hmemory : R m'.memory n'.memory) :
    Related R first second m n where
  answer := by rw [answer_of_error hm, answer_of_error hn]
  memory := by rwa [memoryAfter_of_error hm, memoryAfter_of_error hn]

/-- Runs are related if what they come down to is. -/
theorem of_runs {first' second' : Action ε α} {m' n' : Machine} (hm : first m = first' m')
    (hn : second n = second' n') (h : Related R first' second' m' n') :
    Related R first second m n where
  answer := by
    have hanswer := h.answer
    rwa [Action.answer, Action.answer, ← hm, ← hn] at hanswer
  memory := by
    have hleft := h.memory
    rwa [memoryAfter, memoryAfter, ← hm, ← hn] at hleft

/-- Binds are related if their first parts are, and their second parts are wherever the first ones
lead. -/
theorem bind (h : Related R first second m n)
    (hf : ∀ a m' n', first m = .ok a m' → second n = .ok a n' → R m'.memory n'.memory →
      Related R (f a) (g a) m' n') :
    Related R (first >>= f) (second >>= g) m n := by
  rcases h.cases with ⟨a, m', n', hm, hn, hmemory⟩ | ⟨e, m', n', hm, hn, hmemory⟩
  · exact of_runs (bind_of_ok hm) (bind_of_ok hn) (hf a m' n' hm hn hmemory)
  · exact of_error (bind_of_error hm) (bind_of_error hn) hmemory

theorem mapError {e : ε → ε'} (h : Related R first second m n) :
    Related R (first.mapError e) (second.mapError e) m n := by
  rcases h.cases with ⟨a, m', n', hm, hn, hmemory⟩ | ⟨cause, m', n', hm, hn, hmemory⟩
  · exact of_ok (mapError_of_ok hm) (mapError_of_ok hn) hmemory
  · exact of_error (mapError_of_error hm) (mapError_of_error hn) hmemory

theorem pure (a : α) (h : R m.memory n.memory) :
    Related R (Pure.pure a : Action ε α) (Pure.pure a) m n :=
  of_ok rfl rfl h

/-- Lines of the log make no difference. -/
theorem log {level level' : Log.Level} {target target' message message' : String}
    (h : R m.memory n.memory) :
    Related R (Action.log level target message : Action ε Unit) (Action.log level' target' message')
      m n :=
  of_ok rfl rfl h

end Related

/-! ## Runs that agree -/

/-- The runs of two actions, each on its machine, answer the same and leave the same memory. -/
structure Agree (first second : Action ε α) (m n : Machine) : Prop where
  answer : first.answer m = second.answer n
  memory : first.memoryAfter m = second.memoryAfter n

namespace Agree

variable {first second : Action ε α} {m n : Machine}

theorem iff_related : Agree first second m n ↔ Related Eq first second m n :=
  ⟨fun h => ⟨h.answer, h.memory⟩, fun h => ⟨h.answer, h.memory⟩⟩

/-- Runs agree if what they come down to does. -/
theorem of_runs {first' second' : Action ε α} {m' n' : Machine} (hm : first m = first' m')
    (hn : second n = second' n') (h : Agree first' second' m' n') : Agree first second m n :=
  iff_related.mpr (.of_runs hm hn (iff_related.mp h))

theorem mapError {e : ε → ε'} (h : Agree first second m n) :
    Agree (first.mapError e) (second.mapError e) m n :=
  iff_related.mpr (iff_related.mp h).mapError

end Agree

end Chainload.Action
