import Chainload.Elf.Draft

/-!
# Assembling an image within the limits of a machine

`Draft.layOut` writes the parts of a draft over as many zeros as they take, and its offsets are
natural numbers. A machine has limits: an offset is a word, memory holds fewer than
`Draft.sizeLimit` bytes, and nothing is written behind the end of an image. `Draft.assemble?` takes
the same steps one by one and gives up at the first that passes a limit.
-/

namespace Chainload

/-- A number as an offset, if it is a word. -/
def offset? (n : Nat) : Option Nat :=
  if n < UInt64.size then some n else none

namespace Elf.Draft

/-! ## Where everything goes -/

end Elf.Draft

end Chainload
