import Chainload.Address.Width
import Chainload.Elf.Class
import Chainload.Image

/-!
# Why an image is not loaded
-/

namespace Chainload.Elf

/-- What stops a load. -/
inductive Fault
  /-- The magic is missing. -/
  | notElf
  /-- The entry point is zero. -/
  | entryZero
  /-- The class byte is not that of the expected class. -/
  | wrongClass (expected : Class) (found : UInt8)
  /-- The data byte is not that of a little-endian file. -/
  | wrongEncoding (found : UInt8)
  /-- The stated size of a program header is not that of the class. -/
  | wrongEntrySize (expected found : UInt16)
  /-- A range lies outside the image. -/
  | image (range : Image.OutOfBounds)
  /-- A segment is smaller in memory than in the file. -/
  | memoryBelowFile (index : Nat) (fileSize memorySize : UInt64)
  /-- An address does not fit a pointer. -/
  | beyondReach (address : UInt64) (width : Width)
  /-- Memory refused a range. -/
  | memory (range : OutOfRange)
  deriving DecidableEq, Repr

open Numeral

/-- The sentence that reports a failed load. -/
def Fault.message : Fault → String
  | .notElf => "The image does not start with the ELF magic"
  | .entryZero => "The image declares entry point 0"
  | .wrongClass expected found =>
    s!"The image is not an {expected.text} file (class byte {found.toNat})"
  | .wrongEncoding found => s!"The image is not little-endian (data byte {found.toNat})"
  | .wrongEntrySize expected found =>
    s!"Program header entries are {found.toNat} bytes, expected {expected.toNat}"
  | .image range => range.message
  | .memoryBelowFile index fileSize memorySize =>
    let inMemory := hex memorySize.toNat
    let inFile := hex fileSize.toNat
    s!"Segment {index} has a memory size {inMemory} below its file size {inFile}"
  | .beyondReach address width =>
    let shown := hex address.toNat
    s!"Address {shown} is not reachable with {width.text} pointers"
  | .memory range => range.message

end Chainload.Elf
