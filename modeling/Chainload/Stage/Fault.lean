import Chainload.Numeral
import Chainload.Stage.Convention

/-!
# Why control is not handed over
-/

namespace Chainload.Stage

open Numeral

/-- The arguments of a stub that may be too wide for it. -/
inductive Slot
  | kernelEntry
  | bootInfo
  deriving DecidableEq, Repr

/-- The argument as diagnostics show it. -/
def Slot.text : Slot → String
  | .kernelEntry => "kernel entry"
  | .bootInfo => "boot information address"

/-- What stops a handover. -/
inductive Fault
  /-- The entry point is zero. -/
  | entryZero
  /-- The entry point does not fit a pointer of the convention. -/
  | entryBeyondReach (address : UInt64) (convention : Convention)
  /-- A value does not fit a 32-bit argument. -/
  | tooWide (slot : Slot) (value : UInt64)
  /-- This machine cannot make a call of the convention. -/
  | foreignCall (convention : Convention)
  /-- A stage of the convention does not take such arguments. -/
  | wrongArguments (convention : Convention)
  /-- The stage gave control back. -/
  | cameBack
  deriving DecidableEq, Repr

/-- The sentence that reports a failed handover. -/
def Fault.message : Fault → String
  | .entryZero => "Refusing to jump to address 0"
  | .entryBeyondReach address convention =>
    let shown := hex address.toNat
    s!"Entry point {shown} is not addressable for a {convention.text} call"
  | .tooWide slot value =>
    let shown := hex value.toNat
    s!"The {slot.text} {shown} does not fit a 32-bit argument"
  | .foreignCall convention =>
    s!"Cannot perform a {convention.text} call from this architecture"
  | .wrongArguments convention =>
    s!"A {convention.text} entry point does not take these arguments"
  | .cameBack => "The next stage returned control"

end Chainload.Stage
