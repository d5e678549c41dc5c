import Chainload.Bytes
import Chainload.Multiboot.Flags

/-!
# The boot information structure

The bootloader leaves a packed structure of 116 bytes in memory. `Info.decode` reads every field at
its offset; `Info.encode` writes all fields one after the other.
-/

namespace Chainload.Multiboot

/-- The fields of the information structure, in the order in which they lie in memory. -/
structure Info where
  flags : InfoFlags
  /-- KiB of memory below 1 MiB. -/
  memLower : UInt32
  /-- KiB of memory from 1 MiB on. -/
  memUpper : UInt32
  bootDevice : UInt32
  commandLine : UInt32
  moduleCount : UInt32
  moduleTable : UInt32
  symbols : Vector UInt32 4
  /-- Size of the memory map in bytes. -/
  mapLength : UInt32
  mapAddress : UInt32
  drivesLength : UInt32
  drivesAddress : UInt32
  configTable : UInt32
  loaderName : UInt32
  apmTable : UInt32
  vbeControl : UInt32
  vbeModeInfo : UInt32
  vbeMode : UInt16
  vbeSegment : UInt16
  vbeOffset : UInt16
  vbeLength : UInt16
  framebufferAddress : UInt64
  framebufferPitch : UInt32
  framebufferWidth : UInt32
  framebufferHeight : UInt32
  framebufferDepth : UInt8
  framebufferType : UInt8
  colorInfo : Vector UInt8 6
  deriving DecidableEq, Repr

namespace Info

/-- The number of bytes of the structure. -/
def size : Nat := 116

/-- The fields of a structure in memory. A byte past the end of `bytes` counts as zero. -/
def decode (bytes : Bytes) : Info where
  flags := ⟨bytes.word32 0⟩
  memLower := bytes.word32 4
  memUpper := bytes.word32 8
  bootDevice := bytes.word32 12
  commandLine := bytes.word32 16
  moduleCount := bytes.word32 20
  moduleTable := bytes.word32 24
  symbols := #v[bytes.word32 28, bytes.word32 32, bytes.word32 36, bytes.word32 40]
  mapLength := bytes.word32 44
  mapAddress := bytes.word32 48
  drivesLength := bytes.word32 52
  drivesAddress := bytes.word32 56
  configTable := bytes.word32 60
  loaderName := bytes.word32 64
  apmTable := bytes.word32 68
  vbeControl := bytes.word32 72
  vbeModeInfo := bytes.word32 76
  vbeMode := bytes.word16 80
  vbeSegment := bytes.word16 82
  vbeOffset := bytes.word16 84
  vbeLength := bytes.word16 86
  framebufferAddress := bytes.word64 88
  framebufferPitch := bytes.word32 96
  framebufferWidth := bytes.word32 100
  framebufferHeight := bytes.word32 104
  framebufferDepth := bytes.getD 108 0
  framebufferType := bytes.getD 109 0
  colorInfo := Vector.ofFn fun i => bytes.getD (110 + i.val) 0

/-- The structure as it lies in memory. -/
def encode (info : Info) : Bytes :=
  Bytes.ofUInt32 info.flags.bits ++
  Bytes.ofUInt32 info.memLower ++
  Bytes.ofUInt32 info.memUpper ++
  Bytes.ofUInt32 info.bootDevice ++
  Bytes.ofUInt32 info.commandLine ++
  Bytes.ofUInt32 info.moduleCount ++
  Bytes.ofUInt32 info.moduleTable ++
  info.symbols.toList.flatMap Bytes.ofUInt32 ++
  Bytes.ofUInt32 info.mapLength ++
  Bytes.ofUInt32 info.mapAddress ++
  Bytes.ofUInt32 info.drivesLength ++
  Bytes.ofUInt32 info.drivesAddress ++
  Bytes.ofUInt32 info.configTable ++
  Bytes.ofUInt32 info.loaderName ++
  Bytes.ofUInt32 info.apmTable ++
  Bytes.ofUInt32 info.vbeControl ++
  Bytes.ofUInt32 info.vbeModeInfo ++
  Bytes.ofUInt16 info.vbeMode ++
  Bytes.ofUInt16 info.vbeSegment ++
  Bytes.ofUInt16 info.vbeOffset ++
  Bytes.ofUInt16 info.vbeLength ++
  Bytes.ofUInt64 info.framebufferAddress ++
  Bytes.ofUInt32 info.framebufferPitch ++
  Bytes.ofUInt32 info.framebufferWidth ++
  Bytes.ofUInt32 info.framebufferHeight ++
  [info.framebufferDepth, info.framebufferType] ++
  info.colorInfo.toList

/-- The structure with no flag set and every field zero. -/
def empty : Info :=
  decode (Bytes.zeros size)

/-- Upper memory in bytes, if the bootloader reported it. -/
def upperMemory? (info : Info) : Option UInt64 :=
  if info.flags.has .memory then some (info.memUpper.toUInt64 * 1024) else none

end Info

end Chainload.Multiboot
