import Chainload.Bytes

/-!
# Boot modules

A bootloader loads files alongside the image and describes them in a table of 16-byte records.
-/

namespace Chainload.Multiboot

/-- The physical addresses `[start, stop)` of a module. -/
structure Extent where
  start : UInt64
  stop : UInt64
  deriving DecidableEq, Repr

namespace Extent

/-- The number of bytes; none if the range is inverted. -/
def length (extent : Extent) : UInt64 :=
  if extent.start ≤ extent.stop then extent.stop - extent.start else 0

/-- Whether there is no byte in the range. -/
def isEmpty (extent : Extent) : Bool :=
  extent.length == 0

theorem toNat_length (extent : Extent) :
    extent.length.toNat = extent.stop.toNat - extent.start.toNat := by
  unfold length
  split
  case isTrue h =>
    exact UInt64.toNat_sub_of_le _ _ h
  case isFalse h =>
    rw [UInt64.le_iff_toNat_le] at h
    simp only [UInt64.toNat_zero]
    omega

end Extent

/-- A record of the module table. -/
structure Module where
  start : UInt32
  stop : UInt32
  /-- Physical address of the command line. -/
  commandLine : UInt32
  reserved : UInt32
  deriving DecidableEq, Repr

namespace Module

/-- The number of bytes of a record. -/
def size : Nat := 16

/-- The module's addresses. -/
def extent (entry : Module) : Extent :=
  ⟨entry.start.toUInt64, entry.stop.toUInt64⟩

/-- The record that the bytes spell. -/
def decode (bytes : Bytes) : Module where
  start := bytes.word32 0
  stop := bytes.word32 4
  commandLine := bytes.word32 8
  reserved := bytes.word32 12

/-- The record as it lies in the table. -/
def encode (entry : Module) : Bytes :=
  Bytes.ofUInt32 entry.start ++ Bytes.ofUInt32 entry.stop ++
    Bytes.ofUInt32 entry.commandLine ++ Bytes.ofUInt32 entry.reserved

/-- The first `count` records of a table. -/
def decodeTable : (count : Nat) → Bytes → List Module
  | 0, _ => []
  | count + 1, bytes => decode bytes :: decodeTable count (bytes.drop size)

@[simp] theorem length_decodeTable (count : Nat) (bytes : Bytes) :
    (decodeTable count bytes).length = count := by
  induction count generalizing bytes with
  | zero => rfl
  | succ count ih => simp [decodeTable, ih]

end Module

end Chainload.Multiboot
