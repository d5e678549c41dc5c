import Chainload.Elf.Fault
import Chainload.Layout.Fault
import Chainload.Stage.Fault

/-!
# Why a chain stops
-/

namespace Chainload.Chain

/-- What stops a boot chain. -/
inductive Fault
  /-- An image is not loaded. -/
  | load (fault : Elf.Fault)
  /-- Control is not handed over. -/
  | handover (fault : Stage.Fault)
  /-- The layout is not usable. -/
  | layout (fault : Layout.Fault)
  /-- There is no module to load. -/
  | noModule
  /-- The module has more bytes than there is room to stage it. -/
  | noRoom (len capacity : UInt64)
  deriving DecidableEq, Repr

/-- The sentence that reports why a chain stopped. -/
def Fault.message : Fault → String
  | .load fault => s!"Failed to load a stage: {fault.message}"
  | .handover fault => s!"Failed to hand over control: {fault.message}"
  | .layout fault => s!"Invalid memory layout: {fault.message}"
  | .noModule => "The bootloader provided no module to load the kernel from"
  | .noRoom len capacity =>
    let size := Numeral.hex len.toNat
    let room := Numeral.hex capacity.toNat
    s!"The kernel module ({size} bytes) exceeds the scratch region ({room} bytes)"

end Chainload.Chain
