import Mathlib.Data.List.GetD
import Chainload.Elf.Header
import Chainload.Elf.ProgramHeader
import Chainload.Proofs.LittleEndian

/-!
# Headers that are written and read back

What `Header.encode` and `ProgramHeader.encode` write, `decode` reads back, as long as the fields
fit: a 32-bit file keeps only the low half of an address, an offset or a size (`Class.Holds`).

A field is found in what was written by its offset alone. The slice that starts there is followed
through the concatenation (`Bytes.slice_append_left`, `slice_append_right`) until it is the field.
-/

namespace Chainload

namespace Bytes

/-! ## Slices of a concatenation -/

@[simp] theorem slice_append_left {front back : Bytes} {offset len : Nat}
    (h : offset + len ≤ front.length) :
    slice (front ++ back) offset len = slice front offset len := by
  unfold slice
  rw [List.drop_append_of_le_length (by omega),
    List.take_append_of_le_length (by rw [List.length_drop]; omega)]

@[simp] theorem slice_append_right {front back : Bytes} {offset len : Nat}
    (h : front.length ≤ offset) :
    slice (front ++ back) offset len = slice back (offset - front.length) len := by
  rw [slice, slice, List.drop_append, List.drop_eq_nil_of_le h, List.nil_append]

@[simp] theorem slice_self {bytes : Bytes} {len : Nat} (h : bytes.length = len) :
    slice bytes 0 len = bytes := by
  rw [slice, List.drop_zero, List.take_of_length_le (Nat.le_of_eq h)]

/-! ## Words -/

@[simp] theorem length_ofUInt16 (w : UInt16) : (ofUInt16 w).length = 2 :=
  length_ofNat ..

@[simp] theorem length_ofUInt32 (w : UInt32) : (ofUInt32 w).length = 4 :=
  length_ofNat ..

@[simp] theorem length_ofUInt64 (w : UInt64) : (ofUInt64 w).length = 8 :=
  length_ofNat ..

variable {bytes : Bytes} {offset : Nat}

theorem word16_of_slice {w : UInt16} (h : bytes.slice offset 2 = ofUInt16 w) :
    bytes.word16 offset = w := by
  have hw : toNat (ofUInt16 w) = w.toNat := (toNat_ofNat ..).trans (Nat.mod_eq_of_lt w.toNat_lt)
  rw [word16, h, hw, UInt16.ofNat_toNat]

theorem word32_of_slice {w : UInt32} (h : bytes.slice offset 4 = ofUInt32 w) :
    bytes.word32 offset = w := by
  have hw : toNat (ofUInt32 w) = w.toNat := (toNat_ofNat ..).trans (Nat.mod_eq_of_lt w.toNat_lt)
  rw [word32, h, hw, UInt32.ofNat_toNat]

theorem word64_of_slice {w : UInt64} (h : bytes.slice offset 8 = ofUInt64 w) :
    bytes.word64 offset = w := by
  have hw : toNat (ofUInt64 w) = w.toNat := (toNat_ofNat ..).trans (Nat.mod_eq_of_lt w.toNat_lt)
  rw [word64, h, hw, UInt64.ofNat_toNat]

/-- The low half of a word is the word if it is below `2 ^ 32`. -/
theorem word32_of_slice_low {w : UInt64} (hlow : w.toNat < UInt32.size)
    (h : bytes.slice offset 4 = ofUInt32 w.toUInt32) : (bytes.word32 offset).toUInt64 = w := by
  rw [word32_of_slice h]
  apply UInt64.toNat_inj.mp
  rw [UInt32.toNat_toUInt64, UInt64.toNat_toUInt32]
  exact Nat.mod_eq_of_lt hlow

end Bytes

namespace Elf

/-- A file of the class keeps the word whole. -/
def Class.Holds (cls : Class) (w : UInt64) : Prop :=
  cls = .elf32 → w.toNat < UInt32.size

open Bytes

/-! ## The file header -/

namespace Header

@[simp] theorem length_encodeStart (header : Header) : header.encodeStart.length = 24 := by
  simp [encodeStart, magic]

theorem encode_eq_append (header : Header) :
    ∃ fields, header.encode = header.encodeStart ++ fields := by
  unfold encode
  cases header.cls <;>
    · simp only [List.append_assoc]
      exact ⟨_, rfl⟩

/-- A file header opens with the magic. -/
theorem magic_encode (header : Header) : header.encode.slice 0 4 = magic := by
  obtain ⟨fields, hencode⟩ := header.encode_eq_append
  rw [hencode, slice_append_left (by rw [length_encodeStart]; decide)]
  rfl

theorem classByte_encode (header : Header) : header.encode.getD 4 0 = header.classByte := by
  obtain ⟨fields, hencode⟩ := header.encode_eq_append
  rw [hencode, List.getD_append _ _ _ _ (by rw [length_encodeStart]; decide)]
  rfl

theorem dataByte_encode (header : Header) : header.encode.getD 5 0 = header.dataByte := by
  obtain ⟨fields, hencode⟩ := header.encode_eq_append
  rw [hencode, List.getD_append _ _ _ _ (by rw [length_encodeStart]; decide)]
  rfl

theorem machine_encode (header : Header) : header.encode.word16 18 = header.machine := by
  obtain ⟨fields, hencode⟩ := header.encode_eq_append
  refine word16_of_slice ?_
  rw [hencode, slice_append_left (by rw [length_encodeStart]; decide)]
  rfl

/-- A file header is read back if its entry point and its table offset fit. -/
theorem decode_encode {header : Header} (hentry : header.cls.Holds header.entry)
    (htable : header.cls.Holds header.tableOffset) :
    decode header.cls header.encode = header := by
  have hclass := header.classByte_encode
  have hdata := header.dataByte_encode
  have hmachine := header.machine_encode
  obtain ⟨cls, classByte, dataByte, machine, entry, tableOffset, entrySize, entryCount⟩ := header
  cases cls with
  | elf32 =>
    unfold decode
    exact (Header.mk.injEq ..).mpr ⟨rfl, hclass, hdata, hmachine,
      word32_of_slice_low (hentry rfl) (by simp [encode]),
      word32_of_slice_low (htable rfl) (by simp [encode]),
      word16_of_slice (by simp [encode]), word16_of_slice (by simp [encode])⟩
  | elf64 =>
    unfold decode
    exact (Header.mk.injEq ..).mpr ⟨rfl, hclass, hdata, hmachine,
      word64_of_slice (by simp [encode]), word64_of_slice (by simp [encode]),
      word16_of_slice (by simp [encode]), word16_of_slice (by simp [encode])⟩

end Header

/-! ## Program headers -/

namespace ProgramHeader

/-- A file of the class keeps the program header whole. -/
structure FitsClass (cls : Class) (ph : ProgramHeader) : Prop where
  offset : cls.Holds ph.offset
  virtualAddress : cls.Holds ph.virtualAddress
  physicalAddress : cls.Holds ph.physicalAddress
  fileSize : cls.Holds ph.fileSize
  memorySize : cls.Holds ph.memorySize
  alignment : cls.Holds ph.alignment

/-- A program header is read back if it fits. -/
theorem decode_encode {cls : Class} {ph : ProgramHeader} (h : ph.FitsClass cls) :
    decode cls (encode cls ph) = ph := by
  obtain ⟨kind, flags, offset, virtualAddress, physicalAddress, fileSize, memorySize, alignment⟩ :=
    ph
  cases cls with
  | elf32 =>
    unfold decode
    exact (ProgramHeader.mk.injEq ..).mpr ⟨word32_of_slice (by simp [encode]),
      congrArg SegmentFlags.mk (word32_of_slice (by simp [encode])),
      word32_of_slice_low (h.offset rfl) (by simp [encode]),
      word32_of_slice_low (h.virtualAddress rfl) (by simp [encode]),
      word32_of_slice_low (h.physicalAddress rfl) (by simp [encode]),
      word32_of_slice_low (h.fileSize rfl) (by simp [encode]),
      word32_of_slice_low (h.memorySize rfl) (by simp [encode]),
      word32_of_slice_low (h.alignment rfl) (by simp [encode])⟩
  | elf64 =>
    unfold decode
    exact (ProgramHeader.mk.injEq ..).mpr ⟨word32_of_slice (by simp [encode]),
      congrArg SegmentFlags.mk (word32_of_slice (by simp [encode])),
      word64_of_slice (by simp [encode]), word64_of_slice (by simp [encode]),
      word64_of_slice (by simp [encode]), word64_of_slice (by simp [encode]),
      word64_of_slice (by simp [encode]), word64_of_slice (by simp [encode])⟩

end ProgramHeader

end Elf

end Chainload
