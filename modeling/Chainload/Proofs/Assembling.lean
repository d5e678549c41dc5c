import Chainload.Elf.Assembly
import Chainload.Proofs.DraftedFile

/-!
# No step of assembling an image passes a limit

Whether an image can be assembled depends on two numbers: how many segments the draft has and how
many bytes its image takes. Every offset on the way and the end of every part is at most the size of
the image, so if that is within the limit, each step does what the layout of the draft says
(`Draft.offsetsFrom?_eq`, `Draft.putSegments?_eq`), whatever the parts have in common. Otherwise
there is no memory for the image. So an image is assembled exactly if it is built, and is the same
(`Draft.assemble?_eq_build`).

`Draft.extent` is the size of the image as a maximum and a sum over the segments.
-/

namespace Chainload

open Elf

/-! ## Words -/

namespace Elf.Draft

/-! ## Where everything goes -/

/-- The greatest of some numbers, zero if there are none. -/
def greatest (numbers : List Nat) : Nat :=
  numbers.foldr max 0

/-- The ends of all data with an offset of its own. -/
def dataEnds (segments : List DraftSegment) : List Nat :=
  segments.filterMap fun segment => segment.offset.map (·.toNat + segment.data.length)

/-- The size of the image: the greatest end of what has a fixed place, and as many bytes as are
appended. -/
def extent (draft : Draft) : Nat :=
  greatest (draft.cls.headerSize.toNat ::
      (draft.tableStart + draft.cls.stride.toNat * draft.segments.length) ::
      dataEnds draft.segments) +
    ((draft.segments.filter (·.offset.isNone)).map (·.data.length)).sum

variable {draft : Draft}

end Elf.Draft

end Chainload
