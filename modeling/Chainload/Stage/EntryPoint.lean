import Chainload.Stage.Fault

/-!
# Entry points

An address becomes an entry point only with a convention, and only if it is not zero and a pointer
of that convention can hold it.
-/

namespace Chainload.Stage

open Numeral

/-- An address that may be jumped to, and how to call it. -/
structure EntryPoint where
  address : UInt64
  convention : Convention
  address_ne : address ≠ 0
  reaches : convention.width.reaches address = true
  deriving DecidableEq, Repr

namespace EntryPoint

/-- The entry point at an address, or why it is none. -/
def ofAddress (address : UInt64) (convention : Convention) : Except Fault EntryPoint :=
  if h : address = 0 then .error .entryZero
  else if hw : convention.width.reaches address = true then .ok ⟨address, convention, h, hw⟩
  else .error (.entryBeyondReach address convention)

/-- The entry point as diagnostics show it. -/
def text (entry : EntryPoint) : String :=
  let shown := hex entry.address.toNat
  s!"{shown} ({entry.convention.text})"

end EntryPoint

end Chainload.Stage
