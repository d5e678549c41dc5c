import Chainload.Elf.Header
import Chainload.Elf.ProgramHeader

/-!
# Drafting an image

A `Draft` says what an executable should hold; `Draft.build` lays it out and writes it. The file
header comes first and the program headers follow it, unless the draft puts them elsewhere. Data
with an offset of its own goes there. All other data is appended, in order, behind everything that
has a fixed place (`Draft.fixedEnd`).

Where parts overlap, the later one is written over the earlier: the file header, then for each
segment its data and its program header.
-/

namespace Chainload.Elf

/-- A segment of a draft. -/
structure DraftSegment where
  kind : UInt32
  address : UInt64
  /-- Where the data goes in the file. Without an offset it is appended. -/
  offset : Option UInt64
  data : Bytes
  memorySize : UInt64
  deriving DecidableEq, Repr

/-- The description of an executable. -/
structure Draft where
  cls : Class
  classByte : UInt8
  dataByte : UInt8
  entry : UInt64
  /-- Where the program headers go. Without an offset they follow the file header. -/
  tableOffset : Option UInt64
  /-- The size of a program header to be stated, if not the true one. -/
  statedEntrySize : Option UInt16
  segments : List DraftSegment
  deriving DecidableEq, Repr

namespace Draft

/-- A draft without segments. -/
def ofClass (cls : Class) : Draft where
  cls := cls
  classByte := cls.ident
  dataByte := littleEndian
  entry := 0
  tableOffset := none
  statedEntrySize := none
  segments := []

/-- The draft with one more segment at the end. -/
def add (draft : Draft) (segment : DraftSegment) : Draft :=
  { draft with segments := draft.segments ++ [segment] }

/-! ## Where everything goes -/

/-- Where the program headers start. -/
def tableStart (draft : Draft) : Nat :=
  (draft.tableOffset.getD draft.cls.headerSize).toNat

/-- Where the program header with an index starts. -/
def entryStart (draft : Draft) (index : Nat) : Nat :=
  draft.tableStart + index * draft.cls.stride.toNat

/-- The first offset behind the file header, the program headers and all data with an offset of its
own. -/
def fixedEnd (draft : Draft) : Nat :=
  draft.segments.foldl
    (fun stop segment =>
      match segment.offset with
      | some offset => max stop (offset.toNat + segment.data.length)
      | none => stop)
    (max (draft.entryStart draft.segments.length) draft.cls.headerSize.toNat)

/-- The offsets of the data of all segments, when the next data is appended at `cursor`. -/
def offsetsFrom (cursor : Nat) : List DraftSegment → List Nat
  | [] => []
  | segment :: rest =>
    match segment.offset with
    | some offset => offset.toNat :: offsetsFrom cursor rest
    | none => cursor :: offsetsFrom (cursor + segment.data.length) rest

/-- The offsets of the data of all segments. -/
def offsets (draft : Draft) : List Nat :=
  offsetsFrom draft.fixedEnd draft.segments

/-- The number of bytes of all appended data. -/
def appendedSize : List DraftSegment → Nat
  | [] => 0
  | segment :: rest =>
    (if segment.offset.isNone then segment.data.length else 0) + appendedSize rest

/-- The size of the image in bytes. -/
def size (draft : Draft) : Nat :=
  draft.fixedEnd + appendedSize draft.segments

/-! ## Writing -/

/-- The file header. -/
def header (draft : Draft) : Header where
  cls := draft.cls
  classByte := draft.classByte
  dataByte := draft.dataByte
  machine := match draft.cls with
    | .elf32 => 3
    | .elf64 => 62
  entry := draft.entry
  tableOffset := UInt64.ofNat draft.tableStart
  entrySize := draft.statedEntrySize.getD draft.cls.entrySize
  entryCount := UInt16.ofNat draft.segments.length

/-- The program header of a segment whose data lies at an offset: readable and executable, on pages
of 4 KiB. -/
def programHeader (segment : DraftSegment) (offset : Nat) : ProgramHeader where
  kind := segment.kind
  flags := (SegmentFlags.none.set .read true).set .execute true
  offset := UInt64.ofNat offset
  virtualAddress := segment.address
  physicalAddress := segment.address
  fileSize := UInt64.ofNat segment.data.length
  memorySize := segment.memorySize
  alignment := 0x1000

/-- Writes segments, each with the offset of its data, into an image; the first has the given
index. -/
def writeSegments (draft : Draft) : (index : Nat) → List (DraftSegment × Nat) → Bytes → Bytes
  | _, [], image => image
  | index, (segment, offset) :: rest, image =>
    let withData := image.overlay offset segment.data
    let withEntry := withData.overlay (draft.entryStart index)
      (ProgramHeader.encode draft.cls (programHeader segment offset))
    writeSegments draft (index + 1) rest withEntry

/-- The image as it is laid out, whatever its size. -/
def layOut (draft : Draft) : Bytes :=
  draft.writeSegments 0 (draft.segments.zip draft.offsets)
    ((Bytes.zeros draft.size).overlay 0 draft.header.encode)

/-- The greatest number of segments that the header can state. -/
def maxSegments : Nat := 65535

/-- The first size that no image in memory can have. -/
def sizeLimit : Nat := 0x8000_0000_0000_0000

/-- The image, if its header can state the number of segments and memory can hold it. -/
def build (draft : Draft) : Option Bytes :=
  if draft.segments.length ≤ maxSegments ∧ draft.size < sizeLimit then some draft.layOut else none

end Draft

end Chainload.Elf
