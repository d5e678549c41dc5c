import Chainload.Numeral
import Chainload.Ram

/-!
# Physical memory

A stage asks memory for an access, and memory performs or refuses it. There are two ways in which
RAM can be reached:

* through a *window*, which refuses every range that does not lie in the RAM;
* *identity mapped*, by plain pointers: an address is used as it is, only a null pointer is refused,
  and an access of no bytes is not even looked at.

`Memory.perform` is the one way in which memory changes.
-/

namespace Chainload

/-- How a stage reaches the RAM. -/
inductive Mapping
  | window
  | identity
  deriving DecidableEq, Repr

/-- RAM and the way it is reached. -/
structure Memory where
  mapping : Mapping
  ram : Ram
  deriving DecidableEq, Repr

/-- An access that a stage asks memory for. -/
inductive Request
  /-- Write the bytes from `target` on. -/
  | store (target : UInt64) (bytes : Bytes)
  /-- Write `len` zeros from `target` on. -/
  | clear (target len : UInt64)
  /-- Copy `len` bytes from `source` to `target`. The ranges may overlap. -/
  | move (target source len : UInt64)
  /-- Look at the `len` bytes from `address` on as an image. -/
  | view (address len : UInt64)
  deriving DecidableEq, Repr

/-- The range that memory refused. -/
structure OutOfRange where
  address : UInt64
  len : UInt64
  deriving DecidableEq, Repr

/-- The sentence that reports a refused range. -/
def OutOfRange.message (range : OutOfRange) : String :=
  let len := Numeral.hex range.len.toNat
  let address := Numeral.hex range.address.toNat
  s!"{len} bytes at physical address {address} are outside writable memory"

/-- The ranges that a request touches, the one that is written first. -/
def Request.ranges : Request → List OutOfRange
  | .store target bytes => [⟨target, UInt64.ofNat bytes.length⟩]
  | .clear target len => [⟨target, len⟩]
  | .move target source len => [⟨target, len⟩, ⟨source, len⟩]
  | .view address len => [⟨address, len⟩]

namespace Memory

/-- Whether memory grants access to a range. -/
def admits (memory : Memory) (address : UInt64) (len : Nat) : Bool :=
  match memory.mapping with
  | .window => memory.ram.covers address.toNat len
  | .identity => address != 0

/-- Whether memory takes a write of `len` bytes for done without looking at its range. -/
def passesOver (memory : Memory) (len : Nat) : Bool :=
  memory.mapping == .identity && len == 0

/-- The refusal of a range, if it is refused. -/
def refusal? (memory : Memory) (address : UInt64) (len : Nat) : Option OutOfRange :=
  if memory.admits address len then none else some ⟨address, UInt64.ofNat len⟩

/-- Memory with the bytes written from `target` on. -/
def write (memory : Memory) (target : UInt64) (bytes : Bytes) : Memory :=
  { memory with ram := memory.ram.write target.toNat bytes }

/-- Writes bytes, if their range is admitted. -/
def store (memory : Memory) (target : UInt64) (bytes : Bytes) : Except OutOfRange Memory :=
  if memory.passesOver bytes.length then .ok memory
  else match memory.refusal? target bytes.length with
    | some range => .error range
    | none => .ok (memory.write target bytes)

/-- Writes zeros, if their range is admitted. -/
def clear (memory : Memory) (target len : UInt64) : Except OutOfRange Memory :=
  if memory.passesOver len.toNat then .ok memory
  else match memory.refusal? target len.toNat with
    | some range => .error range
    | none => .ok (memory.write target (Bytes.zeros len.toNat))

/-- Copies bytes, if both ranges are admitted. The target is looked at first. -/
def move (memory : Memory) (target source len : UInt64) : Except OutOfRange Memory :=
  if memory.passesOver len.toNat then .ok memory
  else match (memory.refusal? target len.toNat).or (memory.refusal? source len.toNat) with
    | some range => .error range
    | none => .ok (memory.write target (memory.ram.read source.toNat len.toNat))

/-- Grants a view of a range, if it is admitted. Memory stays as it is. -/
def view (memory : Memory) (address len : UInt64) : Except OutOfRange Memory :=
  match memory.refusal? address len.toNat with
  | some range => .error range
  | none => .ok memory

/-- Memory after an access, or the first range of the request that it refuses. -/
def perform (memory : Memory) : Request → Except OutOfRange Memory
  | .store target bytes => memory.store target bytes
  | .clear target len => memory.clear target len
  | .move target source len => memory.move target source len
  | .view address len => memory.view address len

/-- The bytes of a range, if the RAM holds all of it. -/
def bytes? (memory : Memory) (address len : UInt64) : Option Bytes :=
  memory.ram.read? address.toNat len.toNat

end Memory

end Chainload
