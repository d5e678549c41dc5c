import Chainload.Address.Region
import Chainload.Layout.Fault

/-!
# The static layout of physical memory

Every stage writes to fixed physical addresses, so the areas are described once and checked once.
`Layout.fault?` names the first constraint that a layout breaks at a pointer width; a
`Layout.Checked` is a layout that breaks none. `Layout.Checked.shortage?` compares the areas that
the chain writes with the memory that is there.
-/

namespace Chainload

/-- The areas of physical memory that all stages share. -/
structure Layout where
  loader : Region
  stub : Region
  kernel : Region
  scratch : Region
  deriving DecidableEq, Repr

namespace Layout

/-- Where the kernel is linked: 1 MiB. -/
def kernelBase : UInt64 := 0x10_0000

/-- Where the transition stub is linked. -/
def stubBase : UInt64 := 0x320_0000

/-- Where the first stage is linked. -/
def loaderBase : UInt64 := 0x330_0000

/-- Where modules are staged: 100 MiB. -/
def scratchBase : UInt64 := 0x640_0000

/-- How much room a staged module has: 64 MiB. -/
def scratchSize : UInt64 := 0x400_0000

/-- The layout that the stages are linked for. -/
def standard : Layout where
  loader := ⟨loaderBase, 0x200_0000⟩
  stub := ⟨stubBase, loaderBase - stubBase⟩
  kernel := ⟨kernelBase, stubBase - kernelBase⟩
  scratch := ⟨scratchBase, scratchSize⟩

/-- The region of an area. -/
def region (layout : Layout) : Area → Region
  | .loader => layout.loader
  | .stub => layout.stub
  | .kernel => layout.kernel
  | .scratch => layout.scratch

/-- The areas in the order in which they are checked. -/
def areas : List Area :=
  [.loader, .stub, .kernel, .scratch]

/-- The areas that the chain writes. The loader's own was filled by the bootloader. -/
def writtenAreas : List Area :=
  [.stub, .kernel, .scratch]

/-- The pairs of two members of a list, in lexicographic order of their positions. -/
def pairs {α : Type} : List α → List (α × α)
  | [] => []
  | a :: rest => rest.map (a, ·) ++ pairs rest

/-- What is wrong with one area on its own. -/
def areaFault? (layout : Layout) (width : Width) (area : Area) : Option Fault :=
  let region := layout.region area
  if region.isEmpty then some (.empty area)
  else if region.limit?.isNone then some (.wraps area)
  else if !region.fits width then some (.unreachable area width)
  else none

/-- What is wrong with two areas side by side. -/
def pairFault? (layout : Layout) : Area × Area → Option Fault
  | (first, second) =>
    if (layout.region first).overlaps (layout.region second) then some (.overlap first second)
    else none

/-- The first constraint that the layout breaks: each area on its own comes before any pair. -/
def fault? (layout : Layout) (width : Width) : Option Fault :=
  (areas.findSome? (layout.areaFault? width)).or ((pairs areas).findSome? layout.pairFault?)

/-- A layout without a fault at the width it was checked for. -/
structure Checked where
  layout : Layout
  width : Width
  faultless : layout.fault? width = none

/-- The checked layout, or the first constraint that it breaks. -/
def check (layout : Layout) (width : Width) : Except Fault Checked :=
  match h : layout.fault? width with
  | none => .ok ⟨layout, width, h⟩
  | some fault => .error fault

/-- The first written area that no single range of available memory encloses. -/
def Checked.shortage? (checked : Checked) (available : List Region) : Option Fault :=
  writtenAreas.findSome? fun area =>
    if available.any (·.encloses (checked.layout.region area)) then none
    else some (.unavailable area)

end Layout

end Chainload
