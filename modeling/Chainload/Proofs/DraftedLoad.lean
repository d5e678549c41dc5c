import Chainload.Proofs.DraftedFile
import Chainload.Proofs.FailedLoads

/-!
# Loading the image of a draft

A strict loader places the image of a faithful draft as the draft says, if the entry point and the
segments are where it can place them (`Draft.Placeable`) : memory is the one from before with the
contents of every loadable segment written at its address, in the order of the draft
(`Draft.writeContents`).

The loader meets no refusal, since every requirement is met (`Draft.requirements_met`) and every
program header can be dealt with (`Draft.admits`). What it leaves is the last write of every
segment, byte by byte; the writes of the draft leave the same (`Draft.overwritten_writeContents`),
and memory that was overwritten is known by what was written (`Memory.Overwritten.unique`).
-/

namespace Chainload.Elf

open Chainload.Action Memory

/-! ## What a draft places -/

namespace DraftSegment

/-- What a segment leaves in memory: its data and zeros behind it. -/
def contents (segment : DraftSegment) : Bytes :=
  segment.data ++ Bytes.zeros (segment.memorySize.toNat - segment.data.length)

/-- The segment can be placed: it is no smaller in memory than its data, pointers reach its last
address, and the RAM covers what it takes up. -/
structure Placeable (width : Width) (ram : Ram) (segment : DraftSegment) : Prop where
  size : segment.data.length ≤ segment.memorySize.toNat
  last : segment.address.toNat + max segment.memorySize.toNat 1 - 1 ≤ width.highest.toNat
  room : 0 < segment.memorySize.toNat →
    ram.covers segment.address.toNat segment.memorySize.toNat = true

namespace Placeable

variable {width : Width} {ram : Ram} {segment : DraftSegment} (h : segment.Placeable width ram)
include h

theorem length_contents : segment.contents.length = segment.memorySize.toNat := by
  rw [contents, List.length_append, Bytes.length_zeros]
  exact Nat.add_sub_cancel' h.size

theorem truncate_address : width.truncate segment.address = segment.address := by
  have hlast := h.last
  exact Width.truncate_of_reaches ((Width.reaches_iff ..).mpr (by omega))

/-- Only the place of the RAM matters, not what it holds. -/
theorem congr {ram' : Ram} (hbase : ram'.base = ram.base) (hsize : ram'.size = ram.size) :
    segment.Placeable width ram' :=
  ⟨h.size, h.last, fun hne => (Ram.covers_congr hbase hsize ..).trans (h.room hne)⟩

/-- The contents are written where the RAM covers them, or there are none. -/
theorem overwritten {memory : Memory} (hram : memory.ram = ram) :
    Overwritten memory (Bytes.at? segment.address.toNat segment.contents)
      (memory.write segment.address segment.contents) := by
  subst hram
  by_cases hempty : segment.memorySize.toNat = 0
  · have hnil : segment.contents = [] :=
      List.eq_nil_of_length_eq_zero (h.length_contents.trans hempty)
    rw [hnil, write_nil]
    exact (Overwritten.refl memory).congr fun a => (Bytes.at?_eq_none_iff.mpr (by simp)).symm
  · refine Overwritten.write ?_
    rw [h.length_contents]
    exact h.room (Nat.pos_of_ne_zero hempty)

end Placeable

end DraftSegment

namespace Draft

variable {draft : Draft} {width : Width} {ram : Ram} {memory : Memory} {file image : Bytes}
  {placed : DraftSegment × Nat} {index : Nat}

/-- Pointers reach the entry point, which is not zero, and all that is loaded can be placed. -/
structure Placeable (draft : Draft) (width : Width) (ram : Ram) : Prop where
  entry_ne : draft.entry ≠ 0
  entry : draft.entry.toNat ≤ width.highest.toNat
  segments : ∀ segment ∈ draft.segments, segment.kind = loadable → segment.Placeable width ram

/-- Memory with the contents of the loadable segments written at their addresses, in order. -/
def writeContents (segments : List DraftSegment) (memory : Memory) : Memory :=
  (segments.filter fun segment => segment.kind == loadable).foldl
    (fun memory segment => memory.write segment.address segment.contents) memory

/-- The file holds the data of a placed segment at its offset, which is that of a word. -/
structure HeldBy (placed : DraftSegment × Nat) (file : Bytes) : Prop where
  inside : placed.2 + placed.1.data.length ≤ file.length
  word : file.length < UInt64.size
  slice : file.slice placed.2 placed.1.data.length = placed.1.data

namespace HeldBy

variable (h : HeldBy placed file)
include h

theorem toNat_offset : (programHeader placed.1 placed.2).offset.toNat = placed.2 :=
  UInt64.toNat_ofNat_of_lt' (Nat.lt_of_le_of_lt (Nat.le_add_right ..)
    (Nat.lt_of_le_of_lt h.inside h.word))

theorem toNat_fileSize :
    (programHeader placed.1 placed.2).fileSize.toNat = placed.1.data.length :=
  UInt64.toNat_ofNat_of_lt' (Nat.lt_of_le_of_lt (Nat.le_add_left ..)
    (Nat.lt_of_le_of_lt h.inside h.word))

theorem zeroPart_len (width : Width) :
    ((programHeader placed.1 placed.2).zeroPart width).len =
      placed.1.memorySize.toNat - placed.1.data.length := by
  rw [ProgramHeader.zeroPart, h.toNat_fileSize]
  rfl

variable (hplace : placed.1.Placeable width ram)
include hplace

theorem filePart_eq :
    (programHeader placed.1 placed.2).filePart width =
      ⟨placed.1.address.toNat, placed.1.data.length⟩ := by
  rw [ProgramHeader.filePart, h.toNat_fileSize]
  exact congrArg (Span.mk · _) (congrArg UInt64.toNat hplace.truncate_address)

/-- The zeros start behind the data. If there are none, it does not matter where. -/
theorem zeroPart_start (hzeros : placed.1.data.length < placed.1.memorySize.toNat) :
    ((programHeader placed.1 placed.2).zeroPart width).start =
      placed.1.address.toNat + placed.1.data.length := by
  have hlast := hplace.last
  have hstart : ((programHeader placed.1 placed.2).zeroPart width).start =
      (width.truncate (placed.1.address + (programHeader placed.1 placed.2).fileSize)).toNat :=
    congrArg (fun first => (width.truncate (first + _)).toNat) hplace.truncate_address
  rw [hstart, Loader.toNat_truncate_add (by rw [h.toNat_fileSize]; omega), h.toNat_fileSize]

/-- A segment writes its contents at its address. -/
theorem written?_eq (a : Nat) :
    (programHeader placed.1 placed.2).written? width file a =
      Bytes.at? placed.1.address.toNat placed.1.contents a := by
  rw [ProgramHeader.written?_eq, DraftSegment.contents, Bytes.at?_append]
  have hcopied : (programHeader placed.1 placed.2).copied? width file a =
      Bytes.at? placed.1.address.toNat placed.1.data a := by
    rw [ProgramHeader.copied?, h.filePart_eq hplace, h.toNat_offset, ← Bytes.at?_slice, h.slice]
  have hzeroed : (programHeader placed.1 placed.2).zeroed? width a =
      Bytes.at? (placed.1.address.toNat + placed.1.data.length)
        (Bytes.zeros (placed.1.memorySize.toNat - placed.1.data.length)) a := by
    have hlen := h.zeroPart_len width
    rw [ProgramHeader.zeroed?, Bytes.at?_zeros]
    by_cases hzeros : placed.1.data.length < placed.1.memorySize.toNat
    · rw [← hlen, ← h.zeroPart_start hplace hzeros]
    · have hnone : placed.1.memorySize.toNat - placed.1.data.length = 0 := by omega
      rw [if_neg (Span.not_holds_of_empty (hlen.trans hnone) a),
        if_neg (Span.not_holds_of_empty hnone a)]
  rw [hcopied, hzeroed]

/-- The window covers what is copied and what is zeroed. -/
theorem fits : (programHeader placed.1 placed.2).Fits width file ram := by
  have hfile := h.toNat_fileSize
  have hsize := hplace.size
  have hword : ∀ {w : UInt64}, w ≠ 0 → 0 < w.toNat := fun hne =>
    Nat.pos_of_ne_zero fun hzero => hne (UInt64.toNat_inj.mp hzero)
  refine ⟨fun _ => ?_, fun hne => ?_, fun hne => ?_⟩
  · rw [h.toNat_offset, hfile]
    exact h.inside
  · have hdata := hword hne
    rw [hfile] at hdata
    obtain ⟨hlow, hhigh⟩ := Ram.covers_iff.mp (hplace.room (by omega))
    rw [h.filePart_eq hplace, Ram.covers_iff]
    exact ⟨hlow, by dsimp only; omega⟩
  · have hlen := h.zeroPart_len width
    have hzeros : 0 < ((programHeader placed.1 placed.2).zeroPart width).len :=
      Nat.lt_of_lt_of_eq (hword hne) (ProgramHeader.toNat_zeroFill _)
    rw [hlen] at hzeros
    obtain ⟨hlow, hhigh⟩ := Ram.covers_iff.mp (hplace.room (by omega))
    rw [Ram.covers_iff, h.zeroPart_start hplace (by omega), hlen]
    exact ⟨by omega, by omega⟩

/-- A strict loader requires no more of the segment. -/
theorem requirements_met (index : Nat) :
    ∀ requirement ∈ segmentRequirements width file index (programHeader placed.1 placed.2),
      requirement.met = true := by
  have hfile := h.toNat_fileSize
  have hoffset := h.toNat_offset
  simp only [segmentRequirements, List.forall_mem_cons, decide_eq_true_eq, hfile, hoffset]
  exact ⟨hplace.size, h.inside, hplace.last, List.forall_mem_nil _⟩

end HeldBy

/-! ## The writes of the draft -/

theorem writeContents_of_loadable {segment : DraftSegment} {rest : List DraftSegment}
    (h : segment.kind = loadable) (memory : Memory) :
    writeContents (segment :: rest) memory =
      writeContents rest (memory.write segment.address segment.contents) := by
  simp only [writeContents, List.filter_cons, beq_iff_eq.mpr h, if_true, List.foldl_cons]

theorem writeContents_of_skipped {segment : DraftSegment} {rest : List DraftSegment}
    (h : segment.kind ≠ loadable) (memory : Memory) :
    writeContents (segment :: rest) memory = writeContents rest memory := by
  simp only [writeContents, List.filter_cons, beq_eq_false_iff_ne.mpr h, Bool.false_eq_true,
    if_false]

/-- The writes of the segments leave the last write of their program headers everywhere. -/
theorem overwritten_writeContents :
    ∀ {all : List (DraftSegment × Nat)} {memory : Memory},
      (∀ placed ∈ all, placed.1.kind = loadable →
        HeldBy placed file ∧ placed.1.Placeable width memory.ram) →
      Overwritten memory
        (lastWrite? width file (all.map fun placed => programHeader placed.1 placed.2))
        (writeContents (all.map Prod.fst) memory)
  | [], memory, _ => (Overwritten.refl memory).congr fun _ => rfl
  | first :: rest, memory, h => by
    have hrest : ∀ placed ∈ rest, placed.1.kind = loadable →
        HeldBy placed file ∧ placed.1.Placeable width memory.ram :=
      fun placed hmem => h placed (List.mem_cons_of_mem first hmem)
    rw [List.map_cons, List.map_cons]
    by_cases hload : first.1.kind = loadable
    · obtain ⟨hheld, hplace⟩ := h first (List.mem_cons_self ..) hload
      have hfirst := hplace.overwritten rfl
      rw [writeContents_of_loadable hload]
      have ih := overwritten_writeContents fun placed hmem hkind =>
        ⟨(hrest placed hmem hkind).1, (hrest placed hmem hkind).2.congr hfirst.base hfirst.size⟩
      refine (hfirst.trans ih).congr fun a => ?_
      rw [lastWrite?_cons_of_loadable (beq_iff_eq.mpr hload), hheld.written?_eq hplace]
    · rw [writeContents_of_skipped hload]
      refine (overwritten_writeContents hrest).congr fun a => ?_
      rw [lastWrite?_cons_of_skipped (beq_eq_false_iff_ne.mpr hload)]

/-! ## What the loader finds -/

theorem heldBy_layOut (h : draft.Apart) (hsize : draft.size < sizeLimit)
    (hmem : placed ∈ draft.placed) : HeldBy placed draft.layOut where
  inside := by
    rw [length_layOut]
    exact data_le_size hmem
  word := length_layOut_lt hsize
  slice := h.slice_data hmem

theorem exists_placed (hindex : index < draft.segments.length) :
    ∃ placed, draft.placed[index]? = some placed ∧ placed.1 ∈ draft.segments ∧
      placed ∈ draft.placed := by
  rw [← length_placed] at hindex
  have hget := List.getElem?_eq_getElem hindex
  have hmem := List.mem_of_getElem? hget
  exact ⟨_, hget, (List.of_mem_zip hmem).1, hmem⟩

section Placeable

variable (h : draft.Faithful) (hsize : draft.size < sizeLimit) (hplace : draft.Placeable width ram)
include h hsize hplace

/-- Every program header of the image can be dealt with. -/
theorem admits (hindex : index < draft.segments.length) :
    draft.header.table.Admits width draft.layOut ram index := by
  obtain ⟨placed, hget, hsegment, hmem⟩ := exists_placed hindex
  refine ⟨_, h.entry?_header hsize hget, fun hload => ?_⟩
  exact (heldBy_layOut h.apart hsize hmem).fits (hplace.segments _ hsegment (beq_iff_eq.mp hload))

/-- The image meets every requirement of a strict loader. -/
theorem requirements_met (hcount : draft.segments.length ≤ maxSegments) :
    ∀ requirement ∈ requirements width draft.layOut draft.cls, requirement.met = true := by
  have htable := draft.table_le_length
  rw [← toNat_entryCount hcount] at htable
  simp only [requirements, h.decode_header, List.forall_mem_append, startRequirements,
    identRequirements, placeRequirements, List.forall_mem_cons, decide_eq_true_eq,
    List.forall_mem_flatMap]
  have hnil : ∀ requirement ∈ ([] : List Requirement), requirement.met = true :=
    List.forall_mem_nil _
  refine ⟨⟨h.slice_magic, draft.header_le_length, hplace.entry_ne, hnil⟩,
    ⟨h.classByte, h.dataByte, h.entrySize_header, hnil⟩, ⟨hplace.entry, htable, hnil⟩,
    fun index hindex => ?_⟩
  rw [List.mem_range, toNat_entryCount hcount] at hindex
  obtain ⟨placed, hget, hsegment, hmem⟩ := exists_placed hindex
  rw [entryRequirements, h.entryAt_header hget]
  split
  case isFalse => exact hnil
  case isTrue hload =>
    exact (heldBy_layOut h.apart hsize hmem).requirements_met
      (hplace.segments _ hsegment (beq_iff_eq.mp hload)) index

end Placeable

/-! ## The same draft for another class -/

/-- The draft for another class. -/
def retarget (draft : Draft) (cls : Class) : Draft :=
  { draft with cls := cls, classByte := cls.ident }

/-- If nothing has an offset of its own, a faithful draft stays faithful for another class. -/
theorem Faithful.retarget (h : draft.Faithful) (htable : draft.tableOffset = none)
    (hdata : ∀ segment ∈ draft.segments, segment.offset = none) {cls : Class}
    (hnarrow : cls = .elf32 → (draft.retarget cls).Narrow) : (draft.retarget cls).Faithful := by
  have hnone : draft.segments.filterMap fixedSpan? = [] := by
    refine List.filterMap_eq_nil_iff.mpr fun segment hmem => ?_
    rw [fixedSpan?, hdata segment hmem]
    rfl
  have hstart : (draft.retarget cls).tableStart = cls.headerSize.toNat := by
    show (draft.tableOffset.getD cls.headerSize).toNat = _
    rw [htable, Option.getD_none]
  refine ⟨rfl, h.dataByte, h.entrySize, ⟨Nat.le_of_eq hstart.symm, fun span hmem => ?_, ?_⟩,
    hnarrow⟩
  · cases hnone ▸ hmem
  · exact (congrArg (List.Pairwise _) hnone).mpr .nil

end Draft

namespace Loader

variable {draft : Draft} {width : Width} {machine : Machine} {image : Bytes}

/-- A strict loader places the image of a draft as the draft says. -/
theorem exists_load_build (h : draft.Faithful) (hbuild : draft.build = some image)
    (hwindow : machine.memory.mapping = .window)
    (hplace : draft.Placeable width machine.memory.ram) :
    ∃ entry after, load ⟨draft.cls, width, .strict⟩ (.file image) machine = .ok entry after ∧
      entry.address = draft.entry ∧
      after.memory = Draft.writeContents draft.segments machine.memory := by
  obtain ⟨hcount, hsize, rfl⟩ := Draft.build_eq_some_iff.mp hbuild
  have hmet := verdict_eq_ok_iff.mpr (Draft.requirements_met h hsize hplace hcount)
  obtain ⟨header, entry, hinspect⟩ :=
    inspect_of_met machine.memory.ram (Draft.length_layOut_lt hsize) hmet
  have hheader := ofFile?_of_ofImage (Image.shows_file ..) (inspect_eq_ok_iff.mp hinspect).1
  cases hheader.symm.trans h.ofFile?_layOut
  cases hload : load ⟨draft.cls, width, .strict⟩ (.file draft.layOut) machine with
  | error fault after =>
    -- A load that fails would have been refused at a program header that can be dealt with.
    rcases load_eq_error hload with ⟨hrefused, -⟩ | ⟨header, entry', hinspect', hfails⟩
    · rw [hinspect] at hrefused
      cases hrefused
    · cases hinspect.symm.trans hinspect'
      obtain ⟨k, patch, between, hk, -, hrefuses, -⟩ :=
        refused_of_accepted hwindow hinspect hfails
      rw [Draft.toNat_entryCount hcount] at hk
      exact absurd hrefuses (Draft.admits h hsize hplace hk).not_refuses
  | ok entry' after =>
    obtain ⟨header', hheader', hentry, -, -, hover⟩ := overwritten_of_load hwindow hload
    cases hheader'.symm.trans h.ofFile?_layOut
    refine ⟨entry', after, rfl, hentry, hover.unique ?_⟩
    rw [h.entries_header hcount hsize]
    have hwrites := Draft.overwritten_writeContents fun placed hmem hkind =>
      ⟨Draft.heldBy_layOut h.apart hsize hmem, hplace.segments _ (List.of_mem_zip hmem).1 hkind⟩
    rwa [Draft.placed, Draft.map_fst_placedFrom] at hwrites

/-- A strict load of the image of a faithful draft returns the entry point of the draft and leaves
memory with the contents of its loadable segments written at their addresses, in order, if the entry
point and the segments can be placed. If nothing has an offset of its own, the image of the same
draft for another class is loaded to the same entry point and leaves the same memory. -/
theorem strict_load_places_draft (h : draft.Faithful) (hbuild : draft.build = some image)
    (hwindow : machine.memory.mapping = .window)
    (hplace : draft.Placeable width machine.memory.ram) :
    (∃ entry after, load ⟨draft.cls, width, .strict⟩ (.file image) machine = .ok entry after ∧
      entry.address = draft.entry ∧
      after.memory = Draft.writeContents draft.segments machine.memory) ∧
    ∀ cls image', draft.tableOffset = none → (∀ segment ∈ draft.segments, segment.offset = none) →
      (cls = .elf32 → (draft.retarget cls).Narrow) → (draft.retarget cls).build = some image' →
      ∃ entry after after',
        load ⟨draft.cls, width, .strict⟩ (.file image) machine = .ok entry after ∧
        load ⟨cls, width, .strict⟩ (.file image') machine = .ok entry after' ∧
        after'.memory = after.memory := by
  obtain ⟨entry, after, hload, hentry, hmemory⟩ := exists_load_build h hbuild hwindow hplace
  refine ⟨⟨entry, after, hload, hentry, hmemory⟩, fun cls image' htable hdata hnarrow hbuild' => ?_⟩
  have hplace' : (draft.retarget cls).Placeable width machine.memory.ram :=
    ⟨hplace.entry_ne, hplace.entry, hplace.segments⟩
  obtain ⟨entry', after', hload', hentry', hmemory'⟩ :=
    exists_load_build (h.retarget htable hdata hnarrow) hbuild' hwindow hplace'
  obtain ⟨address, hne⟩ := entry
  obtain ⟨address', hne'⟩ := entry'
  cases hentry.trans hentry'.symm
  exact ⟨_, after, after', hload, hload', hmemory'.trans hmemory.symm⟩

/-- Two loadable segments, the second on top of the first, and one that is not loaded. -/
def stacked : Draft :=
  { Draft.ofClass .elf64 with
    entry := 0x10
    segments := [⟨loadable, 0x10, none, [1, 2, 3, 4], 6⟩, ⟨4, 0x20, none, [7, 7], 2⟩,
      ⟨loadable, 0x12, none, [9], 3⟩] }

/-- Both images of the draft leave the byte of the second segment at `0x12` and zeros behind it. -/
theorem strict_load_places_draft_stacked :
    ∃ image image' entry after after',
      stacked.Faithful ∧ stacked.build = some image ∧
      stacked.Placeable .bits32 ⟨0x10, List.replicate 8 0xAA⟩ ∧
      (stacked.retarget .elf32).Narrow ∧ (stacked.retarget .elf32).build = some image' ∧
      load ⟨.elf64, .bits32, .strict⟩ (.file image)
          (.ofMemory ⟨.window, ⟨0x10, List.replicate 8 0xAA⟩⟩) = .ok entry after ∧
      load ⟨.elf32, .bits32, .strict⟩ (.file image')
          (.ofMemory ⟨.window, ⟨0x10, List.replicate 8 0xAA⟩⟩) = .ok entry after' ∧
      after.memory.ram.bytes = [1, 2, 9, 0, 0, 0, 0xAA, 0xAA] ∧
      after'.memory = after.memory := by
  have hfaithful : stacked.Faithful :=
    ⟨rfl, rfl, rfl, ⟨by decide, by decide, by decide⟩, (nomatch ·)⟩
  have hbuild : stacked.build = some stacked.layOut := if_pos ⟨by decide, by decide⟩
  have hplace : stacked.Placeable .bits32 ⟨0x10, List.replicate 8 0xAA⟩ := by
    refine ⟨by decide, by decide, fun segment hmem hload => ?_⟩
    simp only [stacked, List.mem_cons, List.not_mem_nil, or_false] at hmem
    rcases hmem with rfl | rfl | rfl
    · exact ⟨by decide, by decide, fun _ => by decide⟩
    · cases hload
    · exact ⟨by decide, by decide, fun _ => by decide⟩
  have hnarrow : (stacked.retarget .elf32).Narrow :=
    ⟨by decide, by decide, by decide, by decide⟩
  have hbuild' : (stacked.retarget .elf32).build = some (stacked.retarget .elf32).layOut :=
    if_pos ⟨by decide, by decide⟩
  have hwindow : (Machine.ofMemory ⟨.window, ⟨0x10, List.replicate 8 0xAA⟩⟩).memory.mapping =
      .window := rfl
  obtain ⟨⟨entry, after, hload, -, hmemory⟩, hsame⟩ :=
    strict_load_places_draft hfaithful hbuild hwindow hplace
  obtain ⟨entry', between, after', hload', hother, heq⟩ :=
    hsame .elf32 _ rfl (by decide) (fun _ => hnarrow) hbuild'
  cases hload.symm.trans hload'
  refine ⟨_, _, entry, after, after', hfaithful, hbuild, hplace, hnarrow, hbuild', hload, hother,
    ?_, heq⟩
  rw [hmemory]
  decide +kernel

end Loader

end Chainload.Elf
