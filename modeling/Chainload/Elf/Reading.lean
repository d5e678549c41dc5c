import Chainload.Elf.Header
import Chainload.Elf.Fault
import Chainload.Elf.ProgramHeader

/-!
# Reading an image

The file header and the program headers as an image holds them. A program header is found by its
index alone: `Table.offsetOf` counts strides from the start of the table, modulo `2 ^ 64`, so one
that cannot be read does not move the others. `Table.Walk` steps through the table.
-/

namespace Chainload.Elf

/-- A range of an image as a load reads it. -/
def readRange (image : Image) (ram : Ram) (offset len : UInt64) : Except Fault Bytes :=
  (image.read ram offset len).mapError .image

namespace Header

/-- The header at the start of an image. The magic is read on its own, so an image that is too short
for it is not an ELF file. -/
def ofImage (image : Image) (ram : Ram) (cls : Class) : Except Fault Header :=
  match image.read ram 0 4 with
  | .error _ => .error .notElf
  | .ok start =>
    if start = magic then (readRange image ram 0 cls.headerSize).map (decode cls)
    else .error .notElf

/-- Checks that class, encoding and program header size are what the header was decoded for. -/
def checkIdent (header : Header) : Except Fault Unit :=
  if header.classByte ≠ header.cls.ident then .error (.wrongClass header.cls header.classByte)
  else if header.dataByte ≠ littleEndian then .error (.wrongEncoding header.dataByte)
  else if header.entrySize ≠ header.cls.entrySize then
    .error (.wrongEntrySize header.cls.entrySize header.entrySize)
  else .ok ()

end Header

/-- Where the program headers of an image lie. -/
structure Table where
  cls : Class
  offset : UInt64
  count : UInt16
  deriving DecidableEq, Repr

/-- The table that a header names. -/
def Header.table (header : Header) : Table where
  cls := header.cls
  offset := header.tableOffset
  count := header.entryCount

namespace Table

/-- Where the program header with an index lies, modulo `2 ^ 64`. -/
def offsetOf (table : Table) (index : Nat) : UInt64 :=
  table.offset + UInt64.ofNat index * table.cls.stride

/-- The program header with an index. -/
def read (table : Table) (image : Image) (ram : Ram) (index : Nat) :
    Except Fault ProgramHeader :=
  (readRange image ram (table.offsetOf index) table.cls.stride).map
    (ProgramHeader.decode table.cls)

/-- A table and the index of the program header to be read next. -/
structure Walk where
  table : Table
  index : UInt16
  deriving DecidableEq, Repr

/-- The walk that has read nothing yet. -/
def start (table : Table) : Walk :=
  ⟨table, 0⟩

namespace Walk

/-- The number of program headers still to be read. -/
def left (walk : Walk) : Nat :=
  (walk.table.count - walk.index).toNat

/-- The next program header, if there is one left, and the walk behind it. One that cannot be read
is passed all the same. -/
def next (walk : Walk) (image : Image) (ram : Ram) :
    Option (Except Fault ProgramHeader) × Walk :=
  if walk.index < walk.table.count then
    (some (walk.table.read image ram walk.index.toNat), { walk with index := walk.index + 1 })
  else (none, walk)

/-- At most `limit` program headers, and the walk behind them. -/
def take (walk : Walk) (image : Image) (ram : Ram) :
    (limit : Nat) → List (Except Fault ProgramHeader) × Walk
  | 0 => ([], walk)
  | limit + 1 =>
    match walk.next image ram with
    | (none, behind) => ([], behind)
    | (some item, behind) =>
      let (items, last) := behind.take image ram limit
      (item :: items, last)

end Walk

end Table

end Chainload.Elf
