import Chainload.Elf.Load
import Chainload.Proofs.Window

/-!
# What a file holds

The header, the program headers and the segments of a file, read off its bytes alone
(`Elf.Header.ofFile?`, `Elf.Table.entries`, `Elf.segments`).

A loader reads through an image. `Image.Shows image ram file` says that with that RAM every read of
the image finds the bytes of `file`. A file of its own shows itself whatever the RAM holds, and a
view shows the bytes that the RAM holds in its range. Reading is the same through all images that
show one file (`ofImage_congr`, `Table.read_congr`).
-/

namespace Chainload

/-! ## Images that show a file -/

namespace Image

/-- Every read of the image finds the bytes of the file while RAM is as given. -/
structure Shows (image : Image) (ram : Ram) (file : Bytes) : Prop where
  size : image.size = file.length
  fetch : ∀ offset len : UInt64, image.contains offset len = true →
    image.fetch ram offset len = file.slice offset.toNat len.toNat

theorem contains_iff {image : Image} {offset len : UInt64} :
    image.contains offset len = true ↔ offset.toNat + len.toNat ≤ image.size := by
  simp [contains]

theorem shows_file (file : Bytes) (ram : Ram) : (Image.file file).Shows ram file :=
  ⟨rfl, fun _ _ _ => rfl⟩

/-- A view shows what its range holds. -/
theorem shows_view (ram : Ram) (address len : UInt64) :
    (Image.view address len).Shows ram (ram.read address.toNat len.toNat) where
  size := (Ram.length_read ram address.toNat len.toNat).symm
  fetch offset count hcontains := by
    have hinside : offset.toNat + count.toNat ≤ len.toNat := contains_iff.mp hcontains
    exact (Ram.slice_read ram hinside).symm

theorem shows_of_read {ram : Ram} {address len : UInt64} {file : Bytes}
    (h : ram.read address.toNat len.toNat = file) : (Image.view address len).Shows ram file :=
  h ▸ shows_view ram address len

theorem exists_shows (image : Image) (ram : Ram) : ∃ file, image.Shows ram file := by
  cases image with
  | file content => exact ⟨content, shows_file content ram⟩
  | view address len => exact ⟨_, shows_view ram address len⟩

namespace Shows

variable {image : Image} {ram : Ram} {file : Bytes} (h : image.Shows ram file)
include h

theorem contains_iff_le {offset len : UInt64} :
    image.contains offset len = true ↔ offset.toNat + len.toNat ≤ file.length := by
  rw [contains_iff, h.size]

theorem read_eq (offset len : UInt64) :
    image.read ram offset len =
      if offset.toNat + len.toNat ≤ file.length then .ok (file.slice offset.toNat len.toNat)
      else .error ⟨offset, len⟩ := by
  unfold read
  by_cases hc : image.contains offset len = true
  · rw [if_pos hc, if_pos (h.contains_iff_le.mp hc), h.fetch offset len hc]
  · rw [if_neg hc, if_neg (mt h.contains_iff_le.mpr hc)]

theorem contains_congr {image' : Image} {ram' : Ram} (h' : image'.Shows ram' file)
    (offset len : UInt64) : image.contains offset len = image'.contains offset len := by
  rw [Bool.eq_iff_iff, h.contains_iff_le, h'.contains_iff_le]

end Shows

end Image

namespace Elf

theorem readRange_of_shows {image : Image} {ram : Ram} {file : Bytes} (h : image.Shows ram file)
    (offset len : UInt64) :
    readRange image ram offset len =
      if offset.toNat + len.toNat ≤ file.length then .ok (file.slice offset.toNat len.toNat)
      else .error (.image ⟨offset, len⟩) := by
  rw [readRange, h.read_eq]
  split <;> rfl

theorem readRange_congr {image image' : Image} {ram ram' : Ram} {file : Bytes}
    (h : image.Shows ram file) (h' : image'.Shows ram' file) (offset len : UInt64) :
    readRange image ram offset len = readRange image' ram' offset len := by
  rw [readRange_of_shows h, readRange_of_shows h']

/-! ## The parts of a file -/

/-- The offset of a program header is the one in unbounded numbers modulo `2 ^ 64`. -/
theorem Table.toNat_offsetOf_eq_mod (table : Table) (index : Nat) :
    (table.offsetOf index).toNat =
      (table.offset.toNat + index * table.cls.stride.toNat) % UInt64.size := by
  rw [offsetOf, UInt64.toNat_add, UInt64.toNat_mul, UInt64.toNat_ofNat', UInt64.size,
    Nat.mod_mul_mod, Nat.add_mod_mod]

/-- The header at the start of a file, if the file begins with the magic and holds all of it. -/
def Header.ofFile? (cls : Class) (file : Bytes) : Option Header :=
  if file.slice 0 4 = magic ∧ cls.headerSize.toNat ≤ file.length then
    some (decode cls (file.slice 0 cls.headerSize.toNat))
  else none

namespace Table

/-- The program header with an index, if the file holds all of it. -/
def entry? (table : Table) (file : Bytes) (index : Nat) : Option ProgramHeader :=
  if (table.offsetOf index).toNat + table.cls.stride.toNat ≤ file.length then
    some (.decode table.cls (file.slice (table.offsetOf index).toNat table.cls.stride.toNat))
  else none

/-- The program headers that a file holds among `left` from `index` on, in table order. -/
def entriesFrom (table : Table) (file : Bytes) (left index : Nat) : List ProgramHeader :=
  (List.range' index left).filterMap (table.entry? file)

/-- The program headers that a file holds, in table order. -/
def entries (table : Table) (file : Bytes) : List ProgramHeader :=
  table.entriesFrom file table.count.toNat 0

end Table

theorem Table.entriesFrom_succ {table : Table} {file : Bytes} {left index : Nat}
    {ph : ProgramHeader} (h : table.entry? file index = some ph) :
    table.entriesFrom file (left + 1) index = ph :: table.entriesFrom file left (index + 1) := by
  rw [entriesFrom, List.range'_succ, List.filterMap_cons_some h]
  rfl

/-- The loadable segments of a file, in table order. A file without a header has none. -/
def segments (cls : Class) (file : Bytes) : List ProgramHeader :=
  match Header.ofFile? cls file with
  | some header => (header.table.entries file).filter ProgramHeader.isLoadable
  | none => []

theorem segments_of_header {cls : Class} {file : Bytes} {header : Header}
    (h : Header.ofFile? cls file = some header) :
    segments cls file = (header.table.entries file).filter ProgramHeader.isLoadable := by
  simp only [segments, h]

/-! ## Reading through an image -/

/-- Through an image that shows a file the header is that of the file. -/
theorem ofImage_of_shows {image : Image} {ram : Ram} {file : Bytes} (h : image.Shows ram file)
    (cls : Class) :
    Header.ofImage image ram cls =
      if file.slice 0 4 = magic then
        if cls.headerSize.toNat ≤ file.length then
          .ok (.decode cls (file.slice 0 cls.headerSize.toNat))
        else .error (.image ⟨0, cls.headerSize⟩)
      else .error .notElf := by
  have hzero : (0 : UInt64).toNat = 0 := rfl
  have hfour : (4 : UInt64).toNat = 4 := rfl
  simp only [Header.ofImage, h.read_eq, readRange_of_shows h, hzero, hfour, Nat.zero_add]
  by_cases hlen : 4 ≤ file.length
  · simp only [if_pos hlen]
    split
    · split <;> rfl
    · rfl
  · have hshort : file.slice 0 4 ≠ magic := by
      intro hmagic
      have hfour := congrArg List.length hmagic
      simp only [Bytes.slice, List.drop_zero, List.length_take, magic, List.length_cons,
        List.length_nil] at hfour
      omega
    simp only [if_neg hlen, if_neg hshort]

theorem ofImage_congr {image image' : Image} {ram ram' : Ram} {file : Bytes}
    (h : image.Shows ram file) (h' : image'.Shows ram' file) (cls : Class) :
    Header.ofImage image ram cls = Header.ofImage image' ram' cls := by
  rw [ofImage_of_shows h, ofImage_of_shows h']

theorem ofFile?_of_ofImage {image : Image} {ram : Ram} {file : Bytes} (h : image.Shows ram file)
    {cls : Class} {header : Header} (hheader : Header.ofImage image ram cls = .ok header) :
    Header.ofFile? cls file = some header := by
  rw [ofImage_of_shows h] at hheader
  split at hheader
  case isTrue hmagic =>
    split at hheader
    case isTrue hlen =>
      cases hheader
      rw [Header.ofFile?, if_pos ⟨hmagic, hlen⟩]
    case isFalse => cases hheader
  case isFalse => cases hheader

/-- Through an image that shows a file a program header is that of the file. -/
theorem Table.read_of_shows {image : Image} {ram : Ram} {file : Bytes} (h : image.Shows ram file)
    (table : Table) (index : Nat) :
    table.read image ram index =
      match table.entry? file index with
      | some ph => .ok ph
      | none => .error (.image ⟨table.offsetOf index, table.cls.stride⟩) := by
  rw [Table.read, readRange_of_shows h, Table.entry?]
  split <;> rfl

theorem Table.read_congr {image image' : Image} {ram ram' : Ram} {file : Bytes}
    (h : image.Shows ram file) (h' : image'.Shows ram' file) (table : Table) (index : Nat) :
    table.read image ram index = table.read image' ram' index := by
  rw [Table.read_of_shows h, Table.read_of_shows h']

theorem Table.read_eq_ok_iff {image : Image} {ram : Ram} {file : Bytes} (h : image.Shows ram file)
    {table : Table} {index : Nat} {ph : ProgramHeader} :
    table.read image ram index = .ok ph ↔ table.entry? file index = some ph := by
  rw [Table.read_of_shows h]
  cases table.entry? file index <;> simp

end Elf

end Chainload
