import Chainload.Proofs.Drafting
import Chainload.Proofs.Encoding
import Chainload.Proofs.Requirements

/-!
# The image of a draft says what the draft says

A draft is faithful (`Draft.Faithful`) if it states its class, its encoding and the size of its
program headers as they are, keeps its parts apart, and fits its class. From the image of such a
draft a loader reads the header (`Draft.Faithful.decode_header`) and the program headers
(`entryAt_header`, `entries_header`) that the draft wrote.
-/

namespace Chainload.Elf

/-- A table whose program headers are known by their index holds them in that order. -/
theorem Table.entriesFrom_eq {table : Table} {file : Bytes} :
    ∀ {list : List ProgramHeader} {index : Nat},
      (∀ i ph, list[i]? = some ph → table.entry? file (index + i) = some ph) →
      table.entriesFrom file list.length index = list
  | [], _, _ => rfl
  | ph :: rest, index, h => by
    have hfirst : table.entry? file index = some ph := h 0 ph rfl
    rw [List.length_cons, Table.entriesFrom_succ hfirst]
    refine congrArg (ph :: ·) (Table.entriesFrom_eq fun i ph' hget => ?_)
    rw [Nat.add_right_comm]
    exact h (i + 1) ph' hget

namespace Draft

variable {draft : Draft} {image : Bytes} {index : Nat} {placed : DraftSegment × Nat}

/-- All addresses, sizes and offsets are below `2 ^ 32`. -/
structure Narrow (draft : Draft) : Prop where
  entry : draft.entry.toNat < UInt32.size
  table : draft.tableStart < UInt32.size
  segments : ∀ segment ∈ draft.segments, segment.address.toNat < UInt32.size ∧
    segment.data.length < UInt32.size ∧ segment.memorySize.toNat < UInt32.size
  offsets : ∀ offset ∈ draft.offsets, offset < UInt32.size

/-- Nothing is said but what is true, nothing is overwritten and nothing is cut off. -/
structure Faithful (draft : Draft) : Prop where
  classByte : draft.classByte = draft.cls.ident
  dataByte : draft.dataByte = littleEndian
  entrySize : draft.statedEntrySize = none
  apart : draft.Apart
  narrow : draft.cls = .elf32 → draft.Narrow

theorem build_eq_some_iff :
    draft.build = some image ↔ draft.segments.length ≤ maxSegments ∧ draft.size < sizeLimit ∧
      draft.layOut = image := by
  unfold build
  split
  case isTrue hlimits => simp [hlimits]
  case isFalse hlimits =>
    exact iff_of_false (nomatch ·) fun ⟨hcount, hsize, _⟩ => hlimits ⟨hcount, hsize⟩

theorem toNat_tableOffset (draft : Draft) : draft.header.tableOffset.toNat = draft.tableStart := by
  have hoffset : draft.header.tableOffset = draft.tableOffset.getD draft.cls.headerSize :=
    UInt64.ofNat_toNat
  rw [hoffset, tableStart]

theorem toNat_entryCount (hcount : draft.segments.length ≤ maxSegments) :
    draft.header.entryCount.toNat = draft.segments.length :=
  UInt16.toNat_ofNat_of_lt' (Nat.lt_succ_of_le hcount)

theorem length_layOut_lt (hsize : draft.size < sizeLimit) :
    draft.layOut.length < UInt64.size := by
  rw [length_layOut]
  exact Nat.lt_trans hsize (by decide)

theorem header_le_length (draft : Draft) :
    draft.cls.headerSize.toNat ≤ draft.layOut.length := by
  rw [length_layOut]
  exact Nat.le_trans draft.header_le_fixedEnd (Nat.le_add_right _ _)

theorem table_le_length (draft : Draft) :
    draft.header.tableOffset.toNat + draft.segments.length * draft.header.cls.stride.toNat ≤
      draft.layOut.length := by
  rw [toNat_tableOffset, length_layOut]
  exact Nat.le_trans draft.table_le_fixedEnd (Nat.le_add_right _ _)

namespace Faithful

variable (h : draft.Faithful)
include h

/-- The header is read back. -/
theorem decode_header :
    Header.decode draft.cls (draft.layOut.slice 0 draft.cls.headerSize.toNat) = draft.header := by
  have hentry : draft.header.cls.Holds draft.header.entry := fun hcls => (h.narrow hcls).entry
  have htable : draft.header.cls.Holds draft.header.tableOffset := fun hcls => by
    rw [toNat_tableOffset]
    exact (h.narrow hcls).table
  rw [h.apart.slice_header]
  exact Header.decode_encode hentry htable

/-- The header states the true size of a program header. -/
theorem entrySize_header : draft.header.entrySize = draft.cls.entrySize := by
  show draft.statedEntrySize.getD _ = _
  rw [h.entrySize, Option.getD_none]

/-- The image opens with the magic. -/
theorem slice_magic : draft.layOut.slice 0 4 = magic := by
  have hfour : 4 ≤ draft.cls.headerSize.toNat := by cases draft.cls <;> decide
  have hstart : (draft.layOut.slice 0 draft.cls.headerSize.toNat).slice 0 4 =
      draft.layOut.slice 0 4 := by
    simp only [Bytes.slice, List.drop_zero, List.take_take, Nat.min_eq_left hfour]
  rw [← hstart, h.apart.slice_header, Header.magic_encode]

theorem ofFile?_layOut : Header.ofFile? draft.cls draft.layOut = some draft.header := by
  rw [Header.ofFile?, if_pos ⟨h.slice_magic, draft.header_le_length⟩, h.decode_header]

/-- The program header of a segment fits the class. -/
theorem fitsClass (hmem : placed ∈ draft.placed) :
    (programHeader placed.1 placed.2).FitsClass draft.cls := by
  have hnarrow : draft.cls = .elf32 → placed.1.address.toNat < UInt32.size ∧
      placed.1.data.length < UInt32.size ∧ placed.1.memorySize.toNat < UInt32.size ∧
      placed.2 < UInt32.size := fun hcls =>
    have ⟨haddress, hdata, hmemory⟩ := (h.narrow hcls).segments _ (List.of_mem_zip hmem).1
    ⟨haddress, hdata, hmemory, (h.narrow hcls).offsets _ (List.of_mem_zip hmem).2⟩
  have hword : ∀ {n : Nat}, n < UInt32.size → (UInt64.ofNat n).toNat < UInt32.size := fun hn =>
    Nat.lt_of_le_of_lt (by rw [UInt64.toNat_ofNat']; exact Nat.mod_le _ _) hn
  have halignment : (0x1000 : UInt64).toNat < UInt32.size := by decide
  exact ⟨fun hcls => hword (hnarrow hcls).2.2.2, fun hcls => (hnarrow hcls).1,
    fun hcls => (hnarrow hcls).1, fun hcls => hword (hnarrow hcls).2.1,
    fun hcls => (hnarrow hcls).2.2.1, fun _ => halignment⟩

/-- A program header is read back. -/
theorem entryAt_header (hget : draft.placed[index]? = some placed) :
    draft.header.entryAt draft.layOut index = programHeader placed.1 placed.2 := by
  have hslice := h.apart.slice_entry hget
  have hfits := h.fitsClass (List.mem_of_getElem? hget)
  unfold Header.entryAt
  rw [toNat_tableOffset]
  exact (congrArg (ProgramHeader.decode draft.cls) hslice).trans (ProgramHeader.decode_encode hfits)

theorem entry?_header (hsize : draft.size < sizeLimit)
    (hget : draft.placed[index]? = some placed) :
    draft.header.table.entry? draft.layOut index = some (programHeader placed.1 placed.2) := by
  obtain ⟨hindex, -⟩ := List.getElem?_eq_some_iff.mp hget
  rw [length_placed] at hindex
  have hinside := Nat.le_trans (Nat.add_le_add_left (Nat.mul_le_mul_right _ hindex) _)
    draft.table_le_length
  have hread := Loader.read_entryAt ⟨0, []⟩ (length_layOut_lt hsize) hinside
  rw [h.entryAt_header hget] at hread
  exact (Table.read_eq_ok_iff (Image.shows_file ..)).mp hread

/-- The table of the image holds the program headers of the segments, in order. -/
theorem entries_header (hcount : draft.segments.length ≤ maxSegments)
    (hsize : draft.size < sizeLimit) :
    draft.header.table.entries draft.layOut =
      draft.placed.map fun placed => programHeader placed.1 placed.2 := by
  have hlen : draft.header.table.count.toNat =
      (draft.placed.map fun placed => programHeader placed.1 placed.2).length := by
    rw [List.length_map, length_placed]
    exact toNat_entryCount hcount
  rw [Table.entries, hlen]
  refine Table.entriesFrom_eq fun i ph hget => ?_
  rw [List.getElem?_map, Option.map_eq_some_iff] at hget
  obtain ⟨placed, hget, rfl⟩ := hget
  rw [Nat.zero_add]
  exact h.entry?_header hsize hget

end Faithful

end Draft

end Chainload.Elf
