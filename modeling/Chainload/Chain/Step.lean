import Chainload.Chain.Boot

/-!
# The steps of a chain

A step either places a stage in memory or boots it. A boot first gets a call ready and then makes
it. Only the second part involves the transfer, so a step that fails in the first leaves the
transfer as it was. A `Report` says how a step ended and what it left; `run` does steps one after
the other.
-/

namespace Chainload.Chain

open Elf Stage

/-- Something that a chain is asked to do. -/
inductive Step
  /-- Load an embedded image. -/
  | placeImage (image : Bytes)
  /-- Load the first module. -/
  | placeModule (modules : Modules)
  /-- Load the kernel from where the setup says. -/
  | placeKernel (modules : Modules)
  /-- Load an embedded kernel and enter it. -/
  | bootImage (image : Bytes) (handoff : Handoff)
  /-- Load the kernel from the first module and enter it. -/
  | bootModule (modules : Modules) (handoff : Handoff)
  /-- Load a stub and the kernel, and enter the kernel by way of the stub. -/
  | bootThroughStub (stub : Bytes) (modules : Modules) (handoff : Handoff)
  deriving DecidableEq, Repr

/-- What lasts from one step to the next. -/
structure State where
  memory : Memory
  transfer : Transfer
  deriving DecidableEq, Repr

/-- How a step ends. -/
inductive Outcome
  /-- A stage was loaded. -/
  | loaded (entry : Entry)
  /-- The step failed, or the stage that was entered came back. -/
  | failed (fault : Fault)
  /-- Control went away. -/
  | jumped (arrival : Arrival)
  deriving DecidableEq, Repr

/-- The outcome of a step that made a call. -/
def Outcome.ofDeparture : Departure → Outcome
  | .failed fault => .failed (.handover fault)
  | .jumped arrival => .jumped arrival

/-- What a step did. -/
structure Report where
  outcome : Outcome
  /-- What the step left. -/
  state : State
  requests : List Request
  records : List Log.Record
  deriving DecidableEq, Repr

namespace Report

/-- The report of a step that ended without a call. -/
def ofMachine (outcome : Outcome) (transfer : Transfer) (machine : Machine) : Report where
  outcome := outcome
  state := ⟨machine.memory, transfer⟩
  requests := machine.requests
  records := machine.records

/-- The report of a step that placed a stage. -/
def ofPlacement (transfer : Transfer) : EStateM.Result Fault Machine Entry → Report
  | .ok entry machine => ofMachine (.loaded entry) transfer machine
  | .error fault machine => ofMachine (.failed fault) transfer machine

/-- The lines that follow a call: one if it failed. -/
def departureLines (entry : EntryPoint) : Departure → List Log.Record
  | .failed fault =>
    [⟨.error, logTarget, s!"Control transfer to {entry.text} failed: {fault.message}"⟩]
  | .jumped _ => []

/-- The report of a step that makes a call on a machine that is ready for it. -/
def ofCall (transfer : Transfer) (call : Call) (machine : Machine) : Report :=
  let attempt := transfer.perform call
  let lines := attempt.records ++ departureLines call.entry attempt.departure
  ofMachine (.ofDeparture attempt.departure) attempt.transfer
    { machine with records := machine.records ++ lines }

/-- The report of a step that boots: the call is made if everything is ready for it. -/
def ofBoot (transfer : Transfer) : EStateM.Result Fault Machine Call → Report
  | .ok call machine => ofCall transfer call machine
  | .error fault machine => ofMachine (.failed fault) transfer machine

end Report

/-- Does one step. -/
def Step.perform (setup : Setup) (state : State) (step : Step) : Report :=
  let machine := Machine.ofMemory state.memory
  match step with
  | .placeImage image => .ofPlacement state.transfer (setup.placeImage image machine)
  | .placeModule modules => .ofPlacement state.transfer (setup.placeModule modules machine)
  | .placeKernel modules => .ofPlacement state.transfer (setup.placeKernel modules machine)
  | .bootImage image handoff =>
    .ofBoot state.transfer (setup.readyImage image handoff machine)
  | .bootModule modules handoff =>
    .ofBoot state.transfer (setup.readyModule modules handoff machine)
  | .bootThroughStub stub modules handoff =>
    .ofBoot state.transfer (setup.readyStub stub modules handoff machine)

/-- The reports of steps that are done one after the other. -/
def run (setup : Setup) : State → List Step → List Report
  | _, [] => []
  | state, step :: rest =>
    let report := step.perform setup state
    report :: run setup report.state rest

theorem length_run (setup : Setup) (state : State) (steps : List Step) :
    (run setup state steps).length = steps.length := by
  induction steps generalizing state with
  | nil => rfl
  | cons step rest ih => simp [run, ih]

end Chainload.Chain
