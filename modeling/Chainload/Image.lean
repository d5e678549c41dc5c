import Chainload.Memory

/-!
# Images

An image is a complete file, either bytes of its own or a view of RAM. A view reads what the RAM
holds at that moment, so it sees what was written since it was made.
-/

namespace Chainload

/-- The bytes of a file. -/
inductive Image
  /-- Bytes that no write to memory reaches. -/
  | file (bytes : Bytes)
  /-- The `len` bytes of memory from `address` on. -/
  | view (address len : UInt64)
  deriving DecidableEq, Repr

namespace Image

/-- A range that an image does not hold. -/
structure OutOfBounds where
  offset : UInt64
  len : UInt64
  deriving DecidableEq, Repr

/-- The sentence that reports a range outside an image. -/
def OutOfBounds.message (range : OutOfBounds) : String :=
  let len := Numeral.hex range.len.toNat
  let offset := Numeral.hex range.offset.toNat
  s!"{len} bytes at image offset {offset} lie outside the image"

/-- The number of bytes of an image. -/
def size : Image → Nat
  | .file bytes => bytes.length
  | .view _ len => len.toNat

/-- Whether `[offset, offset + len)` lies in the image. -/
def contains (image : Image) (offset len : UInt64) : Bool :=
  offset.toNat + len.toNat ≤ image.size

/-- The bytes of a range that the image contains. -/
def fetch (image : Image) (ram : Ram) (offset len : UInt64) : Bytes :=
  match image with
  | .file bytes => bytes.slice offset.toNat len.toNat
  | .view address _ => ram.read (address.toNat + offset.toNat) len.toNat

/-- The bytes of a range as they are with the given RAM. -/
def read (image : Image) (ram : Ram) (offset len : UInt64) : Except OutOfBounds Bytes :=
  if image.contains offset len then .ok (image.fetch ram offset len) else .error ⟨offset, len⟩

end Image

end Chainload
