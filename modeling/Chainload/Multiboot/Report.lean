import Chainload.Multiboot.View
import Chainload.Numeral

/-!
# A view as text

What a stage writes to the debug console about the structure it was handed.
-/

namespace Chainload.Multiboot

open Numeral

/-- The kind as the report shows it. -/
def RangeKind.text : RangeKind → String
  | .available => "available"
  | .reserved => "reserved"
  | .reclaimable => "ACPI reclaimable"
  | .preserved => "ACPI NVS"
  | .defective => "bad RAM"
  | .other _ => "other"

/-- The line of a memory map entry. -/
def MapEntry.line (entry : MapEntry) : String :=
  let base := paddedHex 16 entry.base.toNat
  let length := hex entry.length.toNat
  s!"    {base} + {length} {entry.kind.text}\n"

/-- The line of the module with position `i`. -/
def Extent.line (extent : Extent) (i : Nat) : String :=
  let start := paddedHex 8 extent.start.toNat
  let stop := paddedHex 8 extent.stop.toNat
  s!"    [{i}] {start}..{stop} ({extent.length.toNat} bytes)\n"

/-- The lines about the structure itself. -/
def Info.lines (info : Info) : List String :=
  let flags := paddedHex 8 info.flags.bits.toNat
  let commandLine := hex info.commandLine.toNat
  let lower := info.memLower.toNat
  let upper := info.memUpper.toNat
  ["Multiboot info:\n", s!"  flags = {flags}\n"]
    ++ (if info.flags.has .memory then
          [s!"  mem_lower = {lower} KiB, mem_upper = {upper} KiB\n"] else [])
    ++ (if info.flags.has .commandLine then [s!"  cmdline at {commandLine}\n"] else [])

/-- The whole report: the structure, the modules and the memory map if there is one. -/
def View.report (view : View) : String :=
  let extents := view.modules.map Module.extent
  String.join <|
    view.info.lines
      ++ [s!"  modules = {extents.length}\n"]
      ++ extents.mapIdx (fun i extent => extent.line i)
      ++ (if view.hasMap then "  memory map:\n" :: view.mapEntries.map MapEntry.line else [])

end Chainload.Multiboot
