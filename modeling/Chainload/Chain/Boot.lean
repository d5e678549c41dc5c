import Chainload.Chain.Placement
import Chainload.Stage.Departure

/-!
# Getting ready to boot

To boot is to place what is needed in memory and then to make a call. This file does the first part:
each action ends with the call that is to be made.

The kernel is entered directly, with the convention of the running machine, or by way of the stub:
the stub is loaded, then the kernel, and the stub is called with the kernel's entry.
-/

namespace Chainload.Chain

open Elf Multiboot Stage

/-- The call that enters a loaded kernel directly. -/
def directCall (entry : Entry) (handoff : Handoff) : Except Fault Call :=
  match EntryPoint.ofAddress entry.address Convention.native with
  | .ok point => .ok ⟨point, .kernel handoff⟩
  | .error fault => .error (.handover fault)

namespace Setup

/-- Loads an embedded kernel that is to be entered directly. -/
def readyImage (setup : Setup) (image : Bytes) (handoff : Handoff) : Action Fault Call := do
  let entry ← setup.placeImage image
  Action.ofExcept (directCall entry handoff)

/-- Loads the kernel from the first module; it is to be entered directly. -/
def readyModule (setup : Setup) (modules : Modules) (handoff : Handoff) : Action Fault Call := do
  let entry ← setup.placeModule modules
  Action.ofExcept (directCall entry handoff)

/-- Loads the stub and then the kernel; the stub is to be called. -/
def readyBoth (setup : Setup) (stub : Bytes) (modules : Modules) (handoff : Handoff) :
    Action Fault Call := do
  let stubAddress ← setup.placeImage stub
  let stubEntry ← Action.ofExcept
    ((EntryPoint.ofAddress stubAddress.address .cdecl32).mapError .handover)
  note .info s!"Transition stub loaded, entry {stubEntry.text}"
  let kernelEntry ← setup.placeKernel modules
  note .info s!"Kernel loaded, entry {kernelEntry.text}"
  let arguments ← Action.ofExcept
    ((StubArguments.ofHandoff kernelEntry.address handoff).mapError .handover)
  return ⟨stubEntry, .stub arguments⟩

/-- As `readyBoth`, with a line in the log if it fails. -/
def readyStub (setup : Setup) (stub : Bytes) (modules : Modules) (handoff : Handoff) :
    Action Fault Call :=
  (setup.readyBoth stub modules handoff).logError fun fault =>
    ⟨.error, logTarget, s!"Two-stage chain aborted: {fault.message}"⟩

end Setup

end Chainload.Chain
