import Mathlib.Data.List.Forall2
import Chainload.Proofs.DraftedLoad
import Chainload.Proofs.TableWalk

/-!
# Reading the image of a draft back

From the image of a faithful draft everything is read that the draft says (`Draft.ReadsBack`): the
header, by a walk the program headers in the order of the segments, and through each program header
the data of its segment. The data of no two segments meets, whether it has an offset of its own or
was appended, and none meets the file header or the table.

The image holds every part of the draft whole, so what is left to show is that the parts are found:
a walk reads the program headers by their index (`Table.Walk.take_eq`), and the file size and the
offset that a program header states are words, because the image is short enough (`Draft.HeldBy`).
-/

namespace Chainload.Elf

/-- The offsets of the file that the segment takes its bytes from. -/
def ProgramHeader.fileSpan (ph : ProgramHeader) : Span :=
  ⟨ph.offset.toNat, ph.fileSize.toNat⟩

/-- What a program header says about a segment and where its data is read. -/
structure DraftSegment.ReadsBack (image : Bytes) (ram : Ram) (segment : DraftSegment)
    (ph : ProgramHeader) : Prop where
  kind : ph.kind = segment.kind
  physicalAddress : ph.physicalAddress = segment.address
  virtualAddress : ph.virtualAddress = segment.address
  fileSize : ph.fileSize.toNat = segment.data.length
  memorySize : ph.memorySize = segment.memorySize
  data : (Image.file image).read ram ph.offset ph.fileSize = .ok segment.data
  /-- An offset of its own is kept. -/
  offset : ∀ fixed, segment.offset = some fixed → ph.offset = fixed

/-- The header and the program headers that are read from an image say what the draft says. -/
structure Draft.ReadsBack (draft : Draft) (image : Bytes) (ram : Ram) (header : Header)
    (entries : List ProgramHeader) : Prop where
  ofImage : Header.ofImage (.file image) ram draft.cls = .ok header
  ident : header.checkIdent = .ok ()
  entry : header.entry = draft.entry
  tableOffset : header.tableOffset.toNat = draft.tableStart
  entryCount : header.entryCount.toNat = draft.segments.length
  /-- A walk through the table reads the program headers and nothing after them. -/
  walk : ∀ limit, draft.segments.length ≤ limit → ∃ behind : Table.Walk,
    header.table.start.take (.file image) ram limit = (entries.map .ok, behind) ∧
      behind.next (.file image) ram = (none, behind)
  segments : List.Forall₂ (DraftSegment.ReadsBack image ram) draft.segments entries
  /-- No data meets the file header or the table. -/
  spares : ∀ ph ∈ entries,
    ¬ph.fileSpan.Meets draft.headerSpan ∧ ¬ph.fileSpan.Meets draft.tableSpan
  /-- The data of two segments does not meet. -/
  apart : entries.Pairwise fun first second => ¬first.fileSpan.Meets second.fileSpan

namespace Draft

variable {draft : Draft} {image file : Bytes} {placed : DraftSegment × Nat}

/-! ## Segments -/

theorem offset_of_mem_placedFrom {fixed : UInt64} (h : placed.1.offset = some fixed) :
    ∀ {segments : List DraftSegment} {cursor : Nat}, placed ∈ placedFrom cursor segments →
      placed.2 = fixed.toNat
  | first :: rest, cursor, hmem => by
    cases hfirst : first.offset with
    | some fixed' =>
      rw [placedFrom_of_fixed rest hfirst] at hmem
      rcases List.mem_cons.mp hmem with rfl | hmem
      · cases hfirst.symm.trans h
        rfl
      · exact offset_of_mem_placedFrom h hmem
    | none =>
      rw [placedFrom_of_appended rest hfirst] at hmem
      rcases List.mem_cons.mp hmem with rfl | hmem
      · cases hfirst.symm.trans h
      · exact offset_of_mem_placedFrom h hmem

namespace HeldBy

variable (h : HeldBy placed file)
include h

theorem fileSpan_eq : (programHeader placed.1 placed.2).fileSpan = dataSpan placed := by
  rw [ProgramHeader.fileSpan, h.toNat_offset, h.toNat_fileSize, dataSpan]

/-- The data is read where the program header says. -/
theorem read_eq (ram : Ram) :
    (Image.file file).read ram (programHeader placed.1 placed.2).offset
      (programHeader placed.1 placed.2).fileSize = .ok placed.1.data := by
  rw [(Image.shows_file file ram).read_eq, h.toNat_offset, h.toNat_fileSize, if_pos h.inside,
    h.slice]

end HeldBy

/-- The program header of a placed segment says what the segment says. -/
theorem readsBack_programHeader (h : HeldBy placed file) (hmem : placed ∈ draft.placed)
    (ram : Ram) : placed.1.ReadsBack file ram (programHeader placed.1 placed.2) where
  kind := rfl
  physicalAddress := rfl
  virtualAddress := rfl
  fileSize := h.toNat_fileSize
  memorySize := rfl
  data := h.read_eq ram
  offset fixed hfixed := by
    apply UInt64.toNat_inj.mp
    rw [h.toNat_offset, offset_of_mem_placedFrom hfixed hmem]

/-! ## Images -/

namespace Faithful

variable (h : draft.Faithful)
include h

theorem checkIdent_header : draft.header.checkIdent = .ok () := by
  have hclass : draft.header.classByte = draft.header.cls.ident := h.classByte
  have hdata : draft.header.dataByte = littleEndian := h.dataByte
  have hentrySize : draft.header.entrySize = draft.header.cls.entrySize := h.entrySize_header
  rw [Header.checkIdent, if_neg (not_not.mpr hclass), if_neg (not_not.mpr hdata),
    if_neg (not_not.mpr hentrySize)]

theorem ofImage_layOut (ram : Ram) :
    Header.ofImage (.file draft.layOut) ram draft.cls = .ok draft.header := by
  rw [ofImage_of_shows (Image.shows_file draft.layOut ram), if_pos h.slice_magic,
    if_pos draft.header_le_length, h.decode_header]

end Faithful

/-- The image of a faithful draft can be read back: its header passes the checks and says what the
draft says, a walk reads one program header for each segment, in order, and the data of each segment
is read where its program header says, apart from all other data, the file header and the table. -/
theorem exists_readsBack (h : draft.Faithful) (hbuild : draft.build = some image) (ram : Ram) :
    ∃ header entries, draft.ReadsBack image ram header entries := by
  obtain ⟨hcount, hsize, rfl⟩ := build_eq_some_iff.mp hbuild
  have hheld : ∀ placed ∈ draft.placed, HeldBy placed draft.layOut := fun _ hmem =>
    heldBy_layOut h.apart hsize hmem
  have hspan : ∀ placed ∈ draft.placed,
      (programHeader placed.1 placed.2).fileSpan = dataSpan placed := fun placed hmem =>
    (hheld placed hmem).fileSpan_eq
  refine ⟨draft.header, draft.placed.map fun placed => programHeader placed.1 placed.2,
    { ofImage := h.ofImage_layOut ram
      ident := h.checkIdent_header
      entry := rfl
      tableOffset := draft.toNat_tableOffset
      entryCount := toNat_entryCount hcount
      walk := fun limit hlimit => ?walk
      segments := ?segments
      spares := ?spares
      apart := ?apart }⟩
  case walk =>
    have hlength : (draft.placed.map fun placed => programHeader placed.1 placed.2).length =
        draft.segments.length := by
      rw [List.length_map, length_placed]
    refine Table.Walk.exists_take_start ((toNat_entryCount hcount).trans hlength.symm)
      (fun i ph hget => ?_) (Nat.le_trans (Nat.le_of_eq hlength) hlimit)
    obtain ⟨placed, hplaced, rfl⟩ := Option.map_eq_some_iff.mp (List.getElem?_map ▸ hget)
    exact (Table.read_eq_ok_iff (Image.shows_file ..)).mpr (h.entry?_header hsize hplaced)
  case segments =>
    have hsegments : draft.segments = draft.placed.map Prod.fst := (map_fst_placedFrom ..).symm
    rw [hsegments, List.forall₂_map_left_iff, List.forall₂_map_right_iff, List.forall₂_same]
    exact fun placed hmem => readsBack_programHeader (hheld placed hmem) hmem ram
  case spares =>
    intro ph hmem
    obtain ⟨placed, hplaced, rfl⟩ := List.mem_map.mp hmem
    rw [hspan placed hplaced]
    exact h.apart.data hplaced
  case apart =>
    rw [List.pairwise_map]
    refine (pairwise_placedFrom h.apart.pairwise draft.le_fixedEnd.2).imp_of_mem
      fun {first second} hfirst hsecond hapart => ?_
    rwa [hspan first hfirst, hspan second hsecond]

/-- The data of one segment lies between the file header and the table, that of the others is
appended. -/
def gapped : Draft :=
  { Draft.ofClass .elf32 with
    entry := 0x1000
    tableOffset := some 64
    segments := [⟨loadable, 0x1000, none, [1, 2, 3], 8⟩, ⟨4, 0x20, some 56, [7, 7], 2⟩,
      ⟨loadable, 0x2000, none, [9], 1⟩] }

theorem exists_readsBack_gapped :
    gapped.Faithful ∧ gapped.build = some gapped.layOut ∧ gapped.offsets = [160, 56, 163] ∧
      ∃ header entries, gapped.ReadsBack gapped.layOut ⟨0, []⟩ header entries := by
  have hfaithful : gapped.Faithful :=
    ⟨rfl, rfl, rfl, ⟨by decide, by decide, by decide⟩,
      fun _ => ⟨by decide, by decide, by decide, by decide⟩⟩
  have hbuild : gapped.build = some gapped.layOut := if_pos ⟨by decide, by decide⟩
  exact ⟨hfaithful, hbuild, by decide, exists_readsBack hfaithful hbuild ⟨0, []⟩⟩

end Draft

end Chainload.Elf
