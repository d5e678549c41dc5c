import Chainload.Log
import Chainload.Memory

/-!
# Actions on a machine

A stage works on a machine: physical memory, the accesses asked of it so far and the lines logged so
far. An `Action` runs on a machine and either returns a value or fails; a failed action keeps what
it did before. Memory changes only through `Action.request`, and every request is kept, refused or
not.
-/

namespace Chainload

/-- Physical memory and what was asked of it and logged. -/
structure Machine where
  memory : Memory
  /-- The accesses asked of memory, in order. -/
  requests : List Request
  /-- The lines logged, in order. -/
  records : List Log.Record
  deriving DecidableEq, Repr

/-- A machine on which nothing has happened yet. -/
def Machine.ofMemory (memory : Memory) : Machine :=
  ⟨memory, [], []⟩

/-- A computation on a machine that returns an `α` or fails with an `ε`. -/
abbrev Action (ε α : Type) := EStateM ε Machine α

namespace Action

variable {ε ε' α : Type}

/-- The RAM as it is now. -/
def ram : Action ε Ram :=
  fun machine => .ok machine.memory.ram machine

/-- Fails if the result is an error. -/
def ofExcept : Except ε α → Action ε α
  | .ok a => pure a
  | .error e => throw e

/-- Fails with the error made from that of another action. -/
def mapError (f : ε → ε') (action : Action ε α) : Action ε' α := fun machine =>
  match action machine with
  | .ok a machine => .ok a machine
  | .error e machine => .error (f e) machine

/-- Logs a line. -/
def log (level : Log.Level) (target message : String) : Action ε Unit :=
  modify fun machine =>
    { machine with records := machine.records ++ [⟨level, target, message⟩] }

/-- Logs a line about the error if the action fails, and fails all the same. -/
def logError (action : Action ε α) (line : ε → Log.Record) : Action ε α := fun machine =>
  match action machine with
  | .ok a machine => .ok a machine
  | .error e machine => .error e { machine with records := machine.records ++ [line e] }

/-- Asks memory for an access. -/
def request (access : Request) : Action OutOfRange Unit := fun machine =>
  let asked := { machine with requests := machine.requests ++ [access] }
  match machine.memory.perform access with
  | .ok memory => .ok () { asked with memory := memory }
  | .error range => .error range asked

/-! ## Running actions

What each way to build an action does on a machine. -/

theorem pure_apply (a : α) (machine : Machine) : (pure a : Action ε α) machine = .ok a machine :=
  rfl

theorem throw_apply (e : ε) (machine : Machine) :
    (throw e : Action ε α) machine = .error e machine :=
  rfl

theorem bind_apply {β : Type} (action : Action ε α) (f : α → Action ε β) (machine : Machine) :
    (action >>= f) machine =
      match action machine with
      | .ok a machine => f a machine
      | .error e machine => .error e machine := by
  show EStateM.bind action f machine = _
  unfold EStateM.bind
  cases action machine <;> rfl

theorem ram_apply (machine : Machine) :
    (ram : Action ε Ram) machine = .ok machine.memory.ram machine :=
  rfl

theorem ofExcept_apply (result : Except ε α) (machine : Machine) :
    ofExcept result machine =
      match result with
      | .ok a => .ok a machine
      | .error e => .error e machine := by
  cases result <;> rfl

theorem mapError_apply (f : ε → ε') (action : Action ε α) (machine : Machine) :
    action.mapError f machine =
      match action machine with
      | .ok a machine => .ok a machine
      | .error e machine => .error (f e) machine :=
  rfl

theorem logError_apply (action : Action ε α) (line : ε → Log.Record) (machine : Machine) :
    action.logError line machine =
      match action machine with
      | .ok a machine => .ok a machine
      | .error e machine => .error e { machine with records := machine.records ++ [line e] } :=
  rfl

/-- A granted request changes memory and a refused one does not; both are kept. -/
theorem request_apply (access : Request) (machine : Machine) :
    request access machine =
      match machine.memory.perform access with
      | .ok memory =>
        .ok () { machine with memory := memory, requests := machine.requests ++ [access] }
      | .error range => .error range { machine with requests := machine.requests ++ [access] } := by
  unfold request
  cases machine.memory.perform access <;> rfl

theorem log_apply (level : Log.Level) (target message : String) (machine : Machine) :
    (log level target message : Action ε Unit) machine =
      .ok () { machine with records := machine.records ++ [⟨level, target, message⟩] } :=
  rfl

end Action

end Chainload
