import Chainload.Stage.Fault

/-!
# What one stage hands to the next

The kernel receives a `Handoff`. The stub takes it in 32-bit arguments, together with the kernel's
entry; `StubArguments.ofHandoff` narrows the values and `StubArguments.toHandoff` widens them again.
-/

namespace Chainload.Stage

/-- What the kernel receives: the bootloader's magic and the address of the boot information. -/
structure Handoff where
  magic : UInt32
  bootInfo : UInt64
  deriving DecidableEq, Repr

/-- The three 32-bit arguments of the stub. -/
structure StubArguments where
  kernelEntry : UInt32
  magic : UInt32
  bootInfo : UInt32
  deriving DecidableEq, Repr

/-- A value as a 32-bit argument, if it fits. -/
def fit (slot : Slot) (value : UInt64) : Except Fault UInt32 :=
  if value.toNat < UInt32.size then .ok value.toUInt32 else .error (.tooWide slot value)

namespace StubArguments

/-- The arguments that carry a kernel entry and a handoff, or the first value that does not fit. -/
def ofHandoff (kernelEntry : UInt64) (handoff : Handoff) : Except Fault StubArguments := do
  let kernelEntry ← fit .kernelEntry kernelEntry
  let bootInfo ← fit .bootInfo handoff.bootInfo
  return { kernelEntry, magic := handoff.magic, bootInfo }

/-- The kernel entry and the handoff that the arguments carry. -/
def toHandoff (arguments : StubArguments) : UInt64 × Handoff :=
  (arguments.kernelEntry.toUInt64, ⟨arguments.magic, arguments.bootInfo.toUInt64⟩)

end StubArguments

/-- The arguments of a control transfer. -/
inductive Arguments
  /-- Into the stub. -/
  | stub (arguments : StubArguments)
  /-- Into the kernel. -/
  | kernel (handoff : Handoff)
  deriving DecidableEq, Repr

end Chainload.Stage
