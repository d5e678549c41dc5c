import Chainload.Address.Width

/-!
# What can be wrong with a layout
-/

namespace Chainload.Layout

/-- The areas of physical memory that the stages agree on. -/
inductive Area
  /-- The running stage and everything linked into it. -/
  | loader
  /-- The stub that switches to 64-bit mode. -/
  | stub
  /-- The segments of the kernel. -/
  | kernel
  /-- Where a boot module is staged before it is loaded. -/
  | scratch
  deriving DecidableEq, Repr

/-- The area as diagnostics show it. -/
def Area.text : Area → String
  | .loader => "loader"
  | .stub => "transition stub"
  | .kernel => "kernel"
  | .scratch => "module scratch"

/-- A constraint that a layout breaks. -/
inductive Fault
  /-- An area has no address. -/
  | empty (area : Area)
  /-- An area has no limit below `2 ^ 64`. -/
  | wraps (area : Area)
  /-- The last address of an area is too wide for the pointers that are to reach it. -/
  | unreachable (area : Area) (width : Width)
  /-- Two areas share an address. -/
  | overlap (first second : Area)
  /-- No range of available memory holds an area. -/
  | unavailable (area : Area)
  deriving DecidableEq, Repr

/-- The sentence that reports a fault. -/
def Fault.message : Fault → String
  | .empty area => s!"the {area.text} region is empty"
  | .wraps area => s!"the {area.text} region wraps around the address space"
  | .unreachable area width =>
    s!"the {area.text} region is not addressable with {width.text} pointers"
  | .overlap first second => s!"the {first.text} region overlaps the {second.text} region"
  | .unavailable area => s!"the {area.text} region is not backed by available RAM"

end Chainload.Layout
