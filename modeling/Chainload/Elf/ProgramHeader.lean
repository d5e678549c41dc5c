import Chainload.Bytes
import Chainload.Elf.Class

/-!
# Program headers

A program header describes a piece of the file and where it goes. Both classes are decoded into
64-bit fields; the fields lie in another order in each class.
-/

namespace Chainload.Elf

/-! ## Segment flags -/

/-- A permission of a segment. -/
inductive Permission
  | execute
  | write
  | read
  deriving DecidableEq, Repr

/-- The mask of a permission. -/
def Permission.mask : Permission → UInt32
  | .execute => 1
  | .write => 2
  | .read => 4

/-- The flag word of a program header. Bits without a name are kept. -/
structure SegmentFlags where
  bits : UInt32
  deriving DecidableEq, Repr

namespace SegmentFlags

/-- No permission. -/
def none : SegmentFlags := ⟨0⟩

/-- Whether a permission is given. -/
def has (flags : SegmentFlags) (permission : Permission) : Bool :=
  flags.bits &&& permission.mask != 0

/-- The flags with a permission given or taken away. -/
def set (flags : SegmentFlags) (permission : Permission) (on : Bool) : SegmentFlags :=
  if on then ⟨flags.bits ||| permission.mask⟩ else ⟨flags.bits &&& ~~~permission.mask⟩

/-- The three permissions as letters, a dash for one that is missing. -/
def text (flags : SegmentFlags) : String :=
  (if flags.has .read then "R" else "-") ++ (if flags.has .write then "W" else "-") ++
    (if flags.has .execute then "X" else "-")

end SegmentFlags

/-! ## Program headers -/

/-- The type number of a segment that is loaded. -/
def loadable : UInt32 := 1

/-- A program header with fields widened to 64 bits. -/
structure ProgramHeader where
  kind : UInt32
  flags : SegmentFlags
  /-- Where the bytes lie in the file. -/
  offset : UInt64
  virtualAddress : UInt64
  /-- Where the bytes go. -/
  physicalAddress : UInt64
  /-- How many bytes the file holds. -/
  fileSize : UInt64
  /-- How many bytes the segment takes up in memory. -/
  memorySize : UInt64
  alignment : UInt64
  deriving DecidableEq, Repr

namespace ProgramHeader

/-- The program header that `cls.stride` bytes spell. -/
def decode (cls : Class) (bytes : Bytes) : ProgramHeader :=
  match cls with
  | .elf32 =>
    { kind := bytes.word32 0
      offset := (bytes.word32 4).toUInt64
      virtualAddress := (bytes.word32 8).toUInt64
      physicalAddress := (bytes.word32 12).toUInt64
      fileSize := (bytes.word32 16).toUInt64
      memorySize := (bytes.word32 20).toUInt64
      flags := ⟨bytes.word32 24⟩
      alignment := (bytes.word32 28).toUInt64 }
  | .elf64 =>
    { kind := bytes.word32 0
      flags := ⟨bytes.word32 4⟩
      offset := bytes.word64 8
      virtualAddress := bytes.word64 16
      physicalAddress := bytes.word64 24
      fileSize := bytes.word64 32
      memorySize := bytes.word64 40
      alignment := bytes.word64 48 }

/-- The program header as it lies in a file. A 32-bit file keeps the low halves of the fields. -/
def encode (cls : Class) (ph : ProgramHeader) : Bytes :=
  match cls with
  | .elf32 =>
    Bytes.ofUInt32 ph.kind ++ Bytes.ofUInt32 ph.offset.toUInt32 ++
      Bytes.ofUInt32 ph.virtualAddress.toUInt32 ++ Bytes.ofUInt32 ph.physicalAddress.toUInt32 ++
      Bytes.ofUInt32 ph.fileSize.toUInt32 ++ Bytes.ofUInt32 ph.memorySize.toUInt32 ++
      Bytes.ofUInt32 ph.flags.bits ++ Bytes.ofUInt32 ph.alignment.toUInt32
  | .elf64 =>
    Bytes.ofUInt32 ph.kind ++ Bytes.ofUInt32 ph.flags.bits ++ Bytes.ofUInt64 ph.offset ++
      Bytes.ofUInt64 ph.virtualAddress ++ Bytes.ofUInt64 ph.physicalAddress ++
      Bytes.ofUInt64 ph.fileSize ++ Bytes.ofUInt64 ph.memorySize ++ Bytes.ofUInt64 ph.alignment

/-- Whether the segment is loaded. -/
def isLoadable (ph : ProgramHeader) : Bool :=
  ph.kind == loadable

/-- How many bytes are zeroed behind those of the file; none if the file holds more bytes than the
segment takes up. -/
def zeroFill (ph : ProgramHeader) : UInt64 :=
  if ph.fileSize ≤ ph.memorySize then ph.memorySize - ph.fileSize else 0

/-- The last address of the segment, if it is below `2 ^ 64`. An empty segment ends where it
starts. -/
def lastAddress? (ph : ProgramHeader) : Option UInt64 :=
  let beyondFirst := if ph.memorySize = 0 then 0 else ph.memorySize - 1
  if ph.physicalAddress.toNat + beyondFirst.toNat < UInt64.size then
    some (ph.physicalAddress + beyondFirst)
  else none

theorem toNat_zeroFill (ph : ProgramHeader) :
    ph.zeroFill.toNat = ph.memorySize.toNat - ph.fileSize.toNat := by
  unfold zeroFill
  split
  case isTrue h => exact UInt64.toNat_sub_of_le _ _ h
  case isFalse h =>
    rw [UInt64.le_iff_toNat_le] at h
    simp only [UInt64.toNat_zero]
    omega

@[simp] theorem length_encode (cls : Class) (ph : ProgramHeader) :
    (encode cls ph).length = cls.stride.toNat := by
  cases cls <;> simp [encode, Bytes.ofUInt32, Bytes.ofUInt64, Class.stride]

end ProgramHeader

end Chainload.Elf
