import Chainload.Multiboot.Flags

/-!
# The header of a bootable image

A bootloader finds an image by a magic number, the flags and a checksum that makes the three words
sum to zero. It enters the image with a magic number of its own.
-/

namespace Chainload.Multiboot

/-- The number that opens the header. -/
def imageMagic : UInt32 := 0x1BAD_B002

/-- The number that a bootloader hands over when it enters an image. -/
def loaderMagic : UInt32 := 0x2BAD_B002

/-- The three words of the header. -/
structure Header where
  magic : UInt32
  flags : HeaderFlags
  checksum : UInt32
  deriving DecidableEq, Repr

namespace Header

/-- The header that makes the given requests. -/
def ofFlags (flags : HeaderFlags) : Header where
  magic := imageMagic
  flags := flags
  checksum := 0 - (imageMagic + flags.bits)

/-- The three words sum to zero. -/
theorem sum_ofFlags (flags : HeaderFlags) :
    (ofFlags flags).magic + (ofFlags flags).flags.bits + (ofFlags flags).checksum = 0 := by
  simp only [ofFlags, UInt32.zero_sub]
  exact UInt32.add_right_neg _

end Header

end Chainload.Multiboot
