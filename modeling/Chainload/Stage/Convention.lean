import Chainload.Address.Width

/-!
# Calling conventions
-/

namespace Chainload.Stage

/-- How a stage expects to be called. -/
inductive Convention
  /-- 32-bit protected mode, arguments on the stack. -/
  | cdecl32
  /-- 64-bit long mode, arguments in registers. -/
  | sysv64
  deriving DecidableEq, Repr

namespace Convention

/-- The pointer width of code with this convention. -/
def width : Convention → Width
  | .cdecl32 => .bits32
  | .sysv64 => .bits64

/-- The convention of code for a pointer width. -/
def ofWidth : Width → Convention
  | .bits32 => .cdecl32
  | .bits64 => .sysv64

/-- The convention of the machine this library describes. -/
def native : Convention :=
  ofWidth Width.native

/-- The name of a convention. -/
def name : Convention → String
  | .cdecl32 => "Cdecl32"
  | .sysv64 => "SysV64"

/-- The convention as diagnostics show it. -/
def text : Convention → String
  | .cdecl32 => "cdecl (32-bit)"
  | .sysv64 => "sysv64"

@[simp] theorem width_ofWidth (width : Width) : (ofWidth width).width = width := by
  cases width <;> rfl

end Convention

end Chainload.Stage
