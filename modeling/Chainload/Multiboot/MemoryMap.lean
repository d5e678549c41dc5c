import Chainload.Address.Region
import Chainload.Bytes

/-!
# The memory map

The bootloader describes physical memory in a buffer of records, each led by a size field that does
not count itself. A `Walk` reads the buffer record by record; it ends at the first record that is
too small or does not fit, and then stays at its end. `entries` is everything a walk from the start
reads.
-/

namespace Chainload.Multiboot

/-- What a range of memory is for. -/
inductive RangeKind
  | available
  | reserved
  /-- Free once the tables in it have been read. -/
  | reclaimable
  /-- To be kept across sleep. -/
  | preserved
  | defective
  /-- A number without a meaning. -/
  | other (number : UInt32)
  deriving DecidableEq, Repr

/-- The kind that a type number stands for. -/
def RangeKind.ofNumber (number : UInt32) : RangeKind :=
  if number = 1 then .available
  else if number = 2 then .reserved
  else if number = 3 then .reclaimable
  else if number = 4 then .preserved
  else if number = 5 then .defective
  else .other number

/-- A range of memory and its kind. -/
structure MapEntry where
  base : UInt64
  length : UInt64
  kind : RangeKind
  deriving DecidableEq, Repr

/-- The addresses of an entry. -/
def MapEntry.region (entry : MapEntry) : Region :=
  ⟨entry.base, entry.length⟩

namespace MemoryMap

/-- The bytes of a record that mean something, the size field apart. -/
def leastSize : Nat := 20

/-- The entry that the bytes after a size field spell. -/
def decodeEntry (record : Bytes) : MapEntry where
  base := record.word64 0
  length := record.word64 8
  kind := .ofNumber (record.word32 16)

/-- A record as it lies in the buffer: its size, its fields and bytes that mean nothing. -/
def encodeRecord (base length : UInt64) (number : UInt32) (filler : Bytes) : Bytes :=
  Bytes.ofNat 4 (leastSize + filler.length) ++ Bytes.ofUInt64 base ++ Bytes.ofUInt64 length ++
    Bytes.ofUInt32 number ++ filler

/-- A buffer and the offset of the record to be read next. -/
structure Walk where
  bytes : Bytes
  offset : Nat
  deriving DecidableEq, Repr

namespace Walk

/-- The walk that has read nothing yet. -/
def start (bytes : Bytes) : Walk :=
  ⟨bytes, 0⟩

/-- The next entry, if there is one, and the walk behind it. Behind a record that is too small there
is nothing more; a record that does not fit is not passed. -/
def next (walk : Walk) : Option MapEntry × Walk :=
  let rest : Bytes := walk.bytes.drop walk.offset
  if rest.length < 4 then (none, walk)
  else
    let size := Bytes.toNat (rest.take 4)
    if size < leastSize then (none, { walk with offset := walk.bytes.length })
    else if rest.length < 4 + size then (none, walk)
    else (some (decodeEntry (rest.slice 4 size)), { walk with offset := walk.offset + 4 + size })

theorem bytes_next (walk : Walk) : walk.next.2.bytes = walk.bytes := by
  simp only [next]
  repeat' split
  all_goals rfl

/-- A step that reads an entry moves on and stays within the buffer. -/
theorem offset_next {walk : Walk} {entry : MapEntry} (h : walk.next.1 = some entry) :
    walk.offset + 4 + leastSize ≤ walk.next.2.offset ∧ walk.next.2.offset ≤ walk.bytes.length := by
  simp only [next] at h ⊢
  split at h
  · exact absurd h (by simp)
  next h4 =>
    split at h
    · exact absurd h (by simp)
    next hmin =>
      split at h
      · exact absurd h (by simp)
      next hfit =>
        rw [if_neg h4, if_neg hmin, if_neg hfit]
        simp only [List.length_drop] at h4 hfit
        exact ⟨by simp only; omega, by simp only; omega⟩

/-- The entries that are still to be read. -/
def entries (walk : Walk) : List MapEntry :=
  match _h : walk.next.1 with
  | none => []
  | some entry => entry :: entries walk.next.2
termination_by walk.bytes.length - walk.offset
decreasing_by
  have hstep := offset_next ‹walk.next.1 = some entry›
  have hbytes := bytes_next walk
  simp only [leastSize] at hstep
  rw [hbytes]
  omega

/-- The walk behind the last entry, when the next step has found nothing. -/
def last (walk : Walk) : Walk :=
  match _h : walk.next.1 with
  | none => walk.next.2
  | some _ => last walk.next.2
termination_by walk.bytes.length - walk.offset
decreasing_by
  have hstep := offset_next ‹walk.next.1 = some _›
  have hbytes := bytes_next walk
  simp only [leastSize] at hstep
  rw [hbytes]
  omega

end Walk

/-- The entries of a memory map. -/
def entries (bytes : Bytes) : List MapEntry :=
  (Walk.start bytes).entries

/-- The available ranges of a memory map. -/
def available (bytes : Bytes) : List Region :=
  ((entries bytes).filter (·.kind = .available)).map MapEntry.region

end MemoryMap

end Chainload.Multiboot
