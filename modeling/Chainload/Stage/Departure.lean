import Chainload.Log
import Chainload.Stage.Arguments
import Chainload.Stage.EntryPoint

/-!
# Control transfers

A transfer hands control to a stage. A *recording* transfer keeps what it was asked for and reports
that the stage came back. A *jumping* one leaves for good, if the machine can make the call: from
long mode it enters a kernel, but it cannot make a 32-bit call.
-/

namespace Chainload.Stage

/-- A call that is ready to be made: an entry point and the arguments for it. -/
structure Call where
  entry : EntryPoint
  arguments : Arguments
  deriving DecidableEq, Repr

/-- A way to hand over control. -/
inductive Transfer
  /-- Makes no call, but remembers how many it was asked for and the last one. -/
  | recording (calls : Nat) (last : Option Call)
  /-- Makes the call for good. -/
  | jumping
  deriving DecidableEq, Repr

/-- Where control went and what the kernel received. -/
structure Arrival where
  address : UInt64
  handoff : Handoff
  deriving DecidableEq, Repr

/-- How an attempt to hand over control ends. -/
inductive Departure
  | failed (fault : Fault)
  | jumped (arrival : Arrival)
  deriving DecidableEq, Repr

/-- An attempt to hand over control: how it ended, the transfer behind it and the lines logged. -/
structure Attempt where
  departure : Departure
  transfer : Transfer
  records : List Log.Record
  deriving DecidableEq, Repr

/-- How a jump from long mode ends. -/
def jump (call : Call) : Departure :=
  match call.entry.convention, call.arguments with
  | .cdecl32, _ => .failed (.foreignCall .cdecl32)
  | .sysv64, .kernel handoff => .jumped ⟨call.entry.address, handoff⟩
  | .sysv64, .stub _ => .failed (.wrongArguments .sysv64)

namespace Transfer

/-- A recording transfer that was asked for nothing yet. -/
def fresh : Transfer :=
  .recording 0 none

/-- Makes a call. -/
def perform (transfer : Transfer) (call : Call) : Attempt :=
  match transfer with
  | .recording calls _ =>
    { departure := .failed .cameBack
      transfer := .recording (calls + 1) (some call)
      records := [⟨.debug, "boot_chain::transfer", s!"Recording transfer to {call.entry.text}"⟩] }
  | .jumping =>
    -- A pointer of the running machine has to hold the address.
    if Width.native.reaches call.entry.address then
      { departure := jump call
        transfer := .jumping
        records := [⟨.info, "boot_chain::jump", s!"Jumping to {call.entry.text}"⟩] }
    else
      { departure := .failed (.entryBeyondReach call.entry.address call.entry.convention)
        transfer := .jumping
        records := [] }

/-- The stub's side of the way to the kernel: widens its arguments and calls the kernel they
name. -/
def fromStub (transfer : Transfer) (arguments : StubArguments) : Attempt :=
  let (kernelEntry, handoff) := arguments.toHandoff
  match EntryPoint.ofAddress kernelEntry .sysv64 with
  | .ok entry => transfer.perform ⟨entry, .kernel handoff⟩
  | .error fault => { departure := .failed fault, transfer, records := [] }

end Transfer

end Chainload.Stage
