import Chainload.Multiboot.Info
import Chainload.Multiboot.MemoryMap
import Chainload.Multiboot.Module
import Chainload.Ram
import Chainload.Validation

/-!
# What the bootloader handed over

A `View` is the information structure with the tables it names, as far as they are to be believed.
The module table is believed under strict validation only if its flag is set; the memory map always
needs its flag. `View.ofRam?` reads everything from physical memory, `View.ofParts` takes tables
that are already at hand.
-/

namespace Chainload.Multiboot

/-- Where a module table lies in physical memory. -/
structure ModuleTable where
  address : UInt64
  count : Nat
  deriving DecidableEq, Repr

namespace ModuleTable

/-- The number of bytes of the table. -/
def size (table : ModuleTable) : Nat :=
  table.count * Module.size

/-- The records of the table, if RAM holds all of it. A table without records is nowhere. -/
def read? (table : ModuleTable) (ram : Ram) : Option (List Module) :=
  if table.count = 0 then some []
  else (ram.read? table.address.toNat table.size).map (Module.decodeTable table.count)

/-- The first record of the table. -/
def first? (table : ModuleTable) (ram : Ram) : Option Module :=
  if table.count = 0 then none
  else some (.decode (ram.read table.address.toNat Module.size))

end ModuleTable

namespace Info

/-- Whether the module table is believed. -/
def showsModules (info : Info) (validation : Validation) : Bool :=
  info.flags.has .modules || !validation.isStrict

/-- The module table that is believed, without records if none is. -/
def shownTable (info : Info) (validation : Validation) : ModuleTable where
  address := info.moduleTable.toUInt64
  count := if info.showsModules validation then info.moduleCount.toNat else 0

/-- The bytes of the memory map, if there is one and RAM holds all of it. -/
def shownMap? (info : Info) (ram : Ram) : Option Bytes :=
  if info.flags.has .memoryMap && info.mapLength != 0 then
    ram.read? info.mapAddress.toNat info.mapLength.toNat
  else some []

/-- The structure at a physical address, if RAM holds all of it. -/
def ofRam? (ram : Ram) (address : UInt64) : Option Info :=
  (ram.read? address.toNat size).map decode

end Info

/-- The information structure and its tables. -/
structure View where
  info : Info
  modules : List Module
  /-- The memory map as it lies in memory. -/
  map : Bytes
  deriving DecidableEq, Repr

namespace View

/-- The view of a structure whose tables are at hand. -/
def ofParts (info : Info) (modules : List Module) (map : Bytes) (validation : Validation) :
    View where
  info := info
  modules := if info.showsModules validation then modules else []
  map := if info.flags.has .memoryMap then map else []

/-- The view of the structure at a physical address, if RAM holds it and the tables it names. -/
def ofRam? (ram : Ram) (address : UInt64) (validation : Validation) : Option View := do
  let info ← Info.ofRam? ram address
  let modules ← (info.shownTable validation).read? ram
  let map ← info.shownMap? ram
  return ofParts info modules map validation

/-- The module with the given position. -/
def module? (view : View) (i : Nat) : Option Extent :=
  view.modules[i]?.map Module.extent

/-- Whether there is a memory map. -/
def hasMap (view : View) : Bool :=
  !view.map.isEmpty

/-- The entries of the memory map. -/
def mapEntries (view : View) : List MapEntry :=
  MemoryMap.entries view.map

/-- The available ranges of the memory map. -/
def available (view : View) : List Region :=
  MemoryMap.available view.map

end View

end Chainload.Multiboot
