import Chainload.Elf.Load
import Chainload.Layout.Basic
import Chainload.Multiboot.View

/-!
# What a chain is set up with
-/

namespace Chainload.Chain

open Multiboot

/-- Where the kernel comes from. -/
inductive Kernel
  /-- An image that is part of the running stage. -/
  | embedded (image : Bytes)
  /-- The first boot module, staged before it is loaded. -/
  | fromModule
  deriving DecidableEq, Repr

/-- The loader, the layout and the kernel of a chain. -/
structure Setup where
  loader : Elf.Loader
  layout : Layout.Checked
  kernel : Kernel

/-- Where the staged module goes. -/
def Setup.scratch (setup : Setup) : Region :=
  setup.layout.layout.scratch

/-- The modules that came with the running stage. -/
inductive Modules
  /-- A list of its own. -/
  | listed (extents : List Extent)
  /-- A table in physical memory, read when a module is asked for. -/
  | table (entries : ModuleTable)
  deriving DecidableEq, Repr

namespace Modules

/-- The first module. -/
def first? (modules : Modules) (ram : Ram) : Option Extent :=
  match modules with
  | .listed extents => extents.head?
  | .table entries => (entries.first? ram).map Module.extent

/-- The modules of the information structure at a physical address, if RAM holds it. -/
def ofRam? (ram : Ram) (address : UInt64) (validation : Validation) : Option Modules :=
  (Info.ofRam? ram address).map fun info => .table (info.shownTable validation)

end Modules

end Chainload.Chain
