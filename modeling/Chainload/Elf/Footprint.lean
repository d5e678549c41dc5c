import Chainload.Elf.ProgramHeader
import Chainload.Address.Width

/-!
# What a segment leaves in memory

The footprint of a segment is a file part, whose bytes come from the image, and a zero part behind
it. Both are spans of addresses that do not wrap; where they start is cut down to the pointer width,
each on its own. `lastWrite?` is the byte that the segments of a table leave at an address when they
are placed in table order: the last segment whose footprint holds the address decides.
-/

namespace Chainload.Elf

/-- The addresses `[start, start + len)`. -/
structure Span where
  start : Nat
  len : Nat
  deriving DecidableEq, Repr

namespace Span

/-- Whether an address lies in the span. -/
def Holds (span : Span) (a : Nat) : Prop :=
  span.start ≤ a ∧ a < span.start + span.len

instance (span : Span) (a : Nat) : Decidable (span.Holds a) :=
  inferInstanceAs (Decidable (_ ∧ _))

/-- Whether two spans share an address. -/
def Meets (s t : Span) : Prop :=
  ∃ a, s.Holds a ∧ t.Holds a

end Span

namespace ProgramHeader

/-- Where the bytes of the file go. -/
def filePart (width : Width) (ph : ProgramHeader) : Span where
  start := (width.truncate ph.physicalAddress).toNat
  len := ph.fileSize.toNat

/-- Where the zeros go. -/
def zeroPart (width : Width) (ph : ProgramHeader) : Span where
  start := (width.truncate (width.truncate ph.physicalAddress + ph.fileSize)).toNat
  len := ph.memorySize.toNat - ph.fileSize.toNat

/-- Whether an address lies in the footprint. -/
def Covers (width : Width) (ph : ProgramHeader) (a : Nat) : Prop :=
  (ph.filePart width).Holds a ∨ (ph.zeroPart width).Holds a

instance (width : Width) (ph : ProgramHeader) (a : Nat) : Decidable (ph.Covers width a) :=
  inferInstanceAs (Decidable (_ ∨ _))

/-- The byte that the segment of an image leaves at an address. The zeros are written last. -/
def written? (width : Width) (image : Bytes) (ph : ProgramHeader) (a : Nat) : Option UInt8 :=
  if (ph.zeroPart width).Holds a then some 0
  else if (ph.filePart width).Holds a then
    image[ph.offset.toNat + (a - (ph.filePart width).start)]?
  else none

end ProgramHeader

/-- The byte that the loadable segments of an image leave at an address, if any of them covers
it. -/
def lastWrite? (width : Width) (image : Bytes) (table : List ProgramHeader) (a : Nat) :
    Option UInt8 :=
  (table.filter ProgramHeader.isLoadable).foldl
    (fun earlier ph => (ph.written? width image a).or earlier) none

end Chainload.Elf
