import Chainload.Bytes
import Chainload.Elf.Class

/-!
# The file header

Only the fields that a loader acts on are decoded. `Header.encode` writes a complete header of an
executable, in which everything else is fixed.
-/

namespace Chainload.Elf

/-- The four bytes that open every ELF file. -/
def magic : Bytes := [0x7F, 0x45, 0x4C, 0x46]

/-- The data byte of a little-endian file. -/
def littleEndian : UInt8 := 1

/-- The fields of the file header that a loader acts on. -/
structure Header where
  /-- The class whose layout the header was decoded with. -/
  cls : Class
  /-- The class byte that the file carries. -/
  classByte : UInt8
  /-- The data byte that the file carries. -/
  dataByte : UInt8
  machine : UInt16
  entry : UInt64
  /-- Where the program headers lie in the file. -/
  tableOffset : UInt64
  /-- The size of a program header that the file states. -/
  entrySize : UInt16
  /-- The number of program headers. -/
  entryCount : UInt16
  deriving DecidableEq, Repr

namespace Header

/-- The header that `cls.headerSize` bytes spell. -/
def decode (cls : Class) (bytes : Bytes) : Header :=
  match cls with
  | .elf32 =>
    { cls := .elf32
      classByte := bytes.getD 4 0
      dataByte := bytes.getD 5 0
      machine := bytes.word16 18
      entry := (bytes.word32 24).toUInt64
      tableOffset := (bytes.word32 28).toUInt64
      entrySize := bytes.word16 42
      entryCount := bytes.word16 44 }
  | .elf64 =>
    { cls := .elf64
      classByte := bytes.getD 4 0
      dataByte := bytes.getD 5 0
      machine := bytes.word16 18
      entry := bytes.word64 24
      tableOffset := bytes.word64 32
      entrySize := bytes.word16 54
      entryCount := bytes.word16 56 }

/-- The identification and the fields in front of the entry point: an executable of version 1. -/
def encodeStart (header : Header) : Bytes :=
  magic ++ [header.classByte, header.dataByte, 1] ++ Bytes.zeros 9 ++ Bytes.ofUInt16 2 ++
    Bytes.ofUInt16 header.machine ++ Bytes.ofUInt32 1

/-- The header as it lies in a file without sections. A 32-bit file keeps the low halves of the
entry point and the table offset. -/
def encode (header : Header) : Bytes :=
  match header.cls with
  | .elf32 =>
    header.encodeStart ++ Bytes.ofUInt32 header.entry.toUInt32 ++
      Bytes.ofUInt32 header.tableOffset.toUInt32 ++ Bytes.zeros 8 ++ Bytes.ofUInt16 52 ++
      Bytes.ofUInt16 header.entrySize ++ Bytes.ofUInt16 header.entryCount ++ Bytes.zeros 6
  | .elf64 =>
    header.encodeStart ++ Bytes.ofUInt64 header.entry ++ Bytes.ofUInt64 header.tableOffset ++
      Bytes.zeros 12 ++ Bytes.ofUInt16 64 ++ Bytes.ofUInt16 header.entrySize ++
      Bytes.ofUInt16 header.entryCount ++ Bytes.zeros 6

/-- The size of the program header table. -/
def tableSize (header : Header) : UInt64 :=
  header.entryCount.toUInt64 * header.cls.stride

@[simp] theorem length_encode (header : Header) :
    header.encode.length = header.cls.headerSize.toNat := by
  cases h : header.cls <;>
    simp [encode, h, encodeStart, magic, Bytes.ofUInt16, Bytes.ofUInt32, Bytes.ofUInt64,
      Class.headerSize]

end Header

end Chainload.Elf
