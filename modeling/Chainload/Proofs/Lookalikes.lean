import Chainload.Elf.Draft
import Chainload.Proofs.RelatedLoads
import Chainload.Proofs.Requirements

/-!
# Files that a loader cannot tell apart

Most of what an ELF file holds has no part in a load. `Loader.Lookalike` lists the rest, and
`load_of_lookalike` says that two files that agree on it are loaded alike: the answer is the same,
error or entry, and so is the memory that is left. What else differs is free: virtual addresses,
alignments, flags, entries that are not loaded, sections, the other fields of the header.

Header, table and data may overlap, so a difference outside may still be one inside; the files are
compared in what is read of them, not byte by byte. A loadable segment comes down to its `Piece`.
Segments with the same piece are checked and placed alike (`ProgramHeader.piece?_cases`), and the
rest is one induction for the checks and one for the placing.
-/

namespace Chainload.Elf

open Chainload.Action Memory

/-! ## What a loader goes by -/

/-- What a loader takes from a segment: where its bytes come from and go to, and the bytes. -/
structure Piece where
  offset : UInt64
  physicalAddress : UInt64
  fileSize : UInt64
  memorySize : UInt64
  /-- The bytes of the range in the file, as far as the file holds them. -/
  bytes : Bytes
  deriving DecidableEq, Repr

/-- The piece that a program header names in a file, if its segment is to be loaded. -/
def ProgramHeader.piece? (file : Bytes) (ph : ProgramHeader) : Option Piece :=
  if ph.isLoadable then
    some ⟨ph.offset, ph.physicalAddress, ph.fileSize, ph.memorySize,
      file.slice ph.offset.toNat ph.fileSize.toNat⟩
  else none

namespace Header

/-- The header that the first bytes of a file spell. -/
def ofStart (cls : Class) (file : Bytes) : Header :=
  decode cls (file.slice 0 cls.headerSize.toNat)

@[simp] theorem cls_ofStart (cls : Class) (file : Bytes) : (ofStart cls file).cls = cls :=
  cls_decode cls _

/-- Two headers agree on the fields that a loader goes by, but for where the table lies. The
identification and the stated size of a program header are for strict loaders only. -/
structure Alike (validation : Validation) (header header' : Header) : Prop where
  entry : header.entry = header'.entry
  entryCount : header.entryCount = header'.entryCount
  classByte : validation.isStrict = true → header.classByte = header'.classByte
  dataByte : validation.isStrict = true → header.dataByte = header'.dataByte
  entrySize : validation.isStrict = true → header.entrySize = header'.entrySize

end Header

/-- At every index of the table, either neither file holds a program header, or both do and name the
same piece or none. -/
def Table.Alike (table : Table) (file file' : Bytes) : Prop :=
  ∀ index < table.count.toNat,
    (table.entry? file index).map (·.piece? file) =
      (table.entry? file' index).map (·.piece? file')

instance (table : Table) (file file' : Bytes) : Decidable (table.Alike file file') :=
  inferInstanceAs (Decidable (∀ index < table.count.toNat, _ = _))

/-- Two files of one size agree on everything that a loader goes by. -/
structure Loader.Lookalike (loader : Loader) (file file' : Bytes) : Prop where
  size : file.length = file'.length
  magic : file.slice 0 4 = magic ↔ file'.slice 0 4 = magic
  header : Header.Alike loader.validation (.ofStart loader.cls file) (.ofStart loader.cls file')
  tableOffset : (Header.ofStart loader.cls file).tableOffset =
    (Header.ofStart loader.cls file').tableOffset
  table : (Header.ofStart loader.cls file).table.Alike file file'

/-! ## Segments with the same piece -/

/-- The segments of two program headers come from the same range of the file and go to the same
place. -/
structure ProgramHeader.SamePlace (ph ph' : ProgramHeader) : Prop where
  offset : ph.offset = ph'.offset
  physicalAddress : ph.physicalAddress = ph'.physicalAddress
  fileSize : ph.fileSize = ph'.fileSize
  memorySize : ph.memorySize = ph'.memorySize

section Piece

variable {file file' : Bytes} {ph ph' : ProgramHeader}

/-- Of program headers that name the same piece, or none, neither segment is loaded, or both are,
from the same bytes and to the same place. -/
theorem ProgramHeader.piece?_cases (h : ph.piece? file = ph'.piece? file') :
    (ph.isLoadable = false ∧ ph'.isLoadable = false) ∨
      ph.isLoadable = true ∧ ph'.isLoadable = true ∧ ph.SamePlace ph' ∧
        file.slice ph.offset.toNat ph.fileSize.toNat =
          file'.slice ph.offset.toNat ph.fileSize.toNat := by
  unfold piece? at h
  cases hload : ph.isLoadable <;> cases hload' : ph'.isLoadable <;> rw [hload, hload'] at h
  case false.false => exact Or.inl ⟨rfl, rfl⟩
  case false.true => cases h
  case true.false => cases h
  case true.true =>
    simp only [if_true, Option.some.injEq, Piece.mk.injEq] at h
    obtain ⟨hoffset, haddress, hfile, hmemory, hbytes⟩ := h
    refine Or.inr ⟨rfl, rfl, ⟨hoffset, haddress, hfile, hmemory⟩, ?_⟩
    rw [hbytes, hoffset, hfile]

namespace ProgramHeader.SamePlace

variable (h : ph.SamePlace ph') (loader : Loader) (image : Image) (index : Nat) (target : UInt64)
include h

theorem checkSegment_eq :
    loader.checkSegment image index ph = loader.checkSegment image index ph' := by
  have hlast : ph.lastAddress? = ph'.lastAddress? := by
    rw [lastAddress?, lastAddress?, h.physicalAddress, h.memorySize]
  rw [Loader.checkSegment, Loader.checkSegment, hlast, h.offset, h.physicalAddress, h.fileSize,
    h.memorySize]

theorem copyFile_eq : Loader.copyFile image target ph = Loader.copyFile image target ph' := by
  simp only [Loader.copyFile, h.offset, h.fileSize]

theorem zeroRest_eq :
    loader.zeroRest index target ph = loader.zeroRest index target ph' := by
  have hfill : ph.zeroFill = ph'.zeroFill := by
    rw [zeroFill, zeroFill, h.fileSize, h.memorySize]
  rw [Loader.zeroRest, Loader.zeroRest, Loader.zeroStart, Loader.zeroStart, hfill, h.fileSize]

end ProgramHeader.SamePlace

variable (hsize : file.length = file'.length)
include hsize

/-- Files of one size contain the same ranges. -/
theorem contains_of_length (offset len : UInt64) :
    (Image.file file).contains offset len = (Image.file file').contains offset len := by
  rw [Image.contains, Image.contains, Image.size, Image.size, hsize]

theorem readRange_of_slice {ram ram' : Ram} {offset len : UInt64}
    (hslice : file.slice offset.toNat len.toNat = file'.slice offset.toNat len.toNat) :
    readRange (.file file) ram offset len = readRange (.file file') ram' offset len := by
  rw [readRange_of_shows (Image.shows_file file ram),
    readRange_of_shows (Image.shows_file file' ram'), hsize, hslice]

end Piece

/-- Where the tables of two files are alike, reading an entry fails alike or finds entries that name
the same piece, or none. -/
theorem Table.Alike.read_cases {table : Table} {file file' : Bytes} (h : table.Alike file file')
    {index : Nat} (hindex : index < table.count.toNat) (ram ram' : Ram) :
    (∃ fault, table.read (.file file) ram index = .error fault ∧
        table.read (.file file') ram' index = .error fault) ∨
      ∃ ph ph', table.read (.file file) ram index = .ok ph ∧
        table.read (.file file') ram' index = .ok ph' ∧ ph.piece? file = ph'.piece? file' := by
  have hentry := h index hindex
  rw [Table.read_of_shows (Image.shows_file file ram),
    Table.read_of_shows (Image.shows_file file' ram')]
  cases hfirst : table.entry? file index <;> cases hsecond : table.entry? file' index <;>
    rw [hfirst, hsecond] at hentry
  case none.none => exact Or.inl ⟨_, rfl, rfl⟩
  case none.some => cases hentry
  case some.none => cases hentry
  case some.some ph ph' => exact Or.inr ⟨ph, ph', rfl, rfl, Option.some.inj hentry⟩

namespace Loader

variable {loader : Loader} {file file' : Bytes} {table : Table}

/-! ## Checks -/

/-- Headers that agree on the table name the same table. -/
theorem table_of_alike {validation : Validation} {header header' : Header}
    (hcls : header.cls = header'.cls) (h : header.Alike validation header')
    (hoffset : header.tableOffset = header'.tableOffset) : header.table = header'.table := by
  rw [Header.table, Header.table, hcls, hoffset, h.entryCount]

section Checks

variable (hsize : file.length = file'.length)
include hsize

theorem checkEntries_of_alike (halike : table.Alike file file') (ram ram' : Ram) :
    ∀ left index : Nat, index + left ≤ table.count.toNat →
      loader.checkEntries (.file file) ram table left index =
        loader.checkEntries (.file file') ram' table left index
  | 0, _, _ => rfl
  | left + 1, index, hle => by
    have ih := checkEntries_of_alike halike ram ram' left (index + 1) (by omega)
    rcases halike.read_cases (by omega : index < table.count.toNat) ram ram' with
      ⟨fault, hfirst, hsecond⟩ | ⟨ph, ph', hfirst, hsecond, hpiece⟩
    · rw [checkEntries, checkEntries, hfirst, hsecond]
      rfl
    rw [checkEntries, checkEntries, hfirst, hsecond, ok_bind, ok_bind, ih]
    rcases ProgramHeader.piece?_cases hpiece with ⟨hskip, hskip'⟩ | ⟨hload, hload', hplace, -⟩
    · rw [hskip, hskip']
      rfl
    · have hcheck : loader.checkSegment (.file file) index ph =
          loader.checkSegment (.file file') index ph' := by
        rw [hplace.checkSegment_eq, checkSegment, checkSegment, contains_of_length hsize]
      rw [hload, hload', hcheck]

theorem vet_of_alike {header header' : Header} (hcls : header.cls = header'.cls)
    (hheader : header.Alike .strict header')
    (hoffset : header.tableOffset = header'.tableOffset) (halike : header.table.Alike file file')
    (ram ram' : Ram) :
    loader.vet (.file file) ram header = loader.vet (.file file') ram' header' := by
  have hident : header.checkIdent = header'.checkIdent := by
    rw [Header.checkIdent, Header.checkIdent, hcls, hheader.classByte rfl, hheader.dataByte rfl,
      hheader.entrySize rfl]
  have htable := table_of_alike hcls hheader hoffset
  have htableSize : header.tableSize = header'.tableSize := by
    rw [Header.tableSize, Header.tableSize, hcls, hheader.entryCount]
  have hchecks : loader.checkEntries (.file file) ram header.table header.entryCount.toNat 0 =
      loader.checkEntries (.file file') ram' header.table header.entryCount.toNat 0 :=
    checkEntries_of_alike hsize halike ram ram' _ _ (Nat.zero_add _ ▸ Nat.le_refl _)
  rw [vet, vet, hchecks, htable, hident, htableSize, hheader.entry, hoffset, hheader.entryCount,
    contains_of_length hsize]

end Checks

/-! ## Placing -/

section Placing

variable (hsize : file.length = file'.length) {ph ph' : ProgramHeader} {m n : Machine}
include hsize

theorem copyFile_of_slice (target : UInt64) (hmemory : m.memory = n.memory)
    (hslice : file.slice ph.offset.toNat ph.fileSize.toNat =
      file'.slice ph.offset.toNat ph.fileSize.toNat) :
    Related Eq (copyFile (.file file) target ph) (copyFile (.file file') target ph) m n := by
  by_cases hempty : ph.fileSize = 0
  · exact .of_ok (copyFile_of_empty hempty) (copyFile_of_empty hempty) hmemory
  have hread : readRange (.file file) m.memory.ram _ _ = readRange (.file file') n.memory.ram _ _ :=
    readRange_of_slice hsize hslice
  cases hread' : readRange (.file file') n.memory.ram ph.offset ph.fileSize with
  | error fault =>
    rw [hread'] at hread
    exact .of_error (copyFile_of_unread hempty hread) (copyFile_of_unread hempty hread') hmemory
  | ok bytes =>
    rw [hread'] at hread
    exact .of_runs (copyFile_of_read hempty hread) (copyFile_of_read hempty hread')
      (request_related bisimulation_eq _ hmemory)

theorem placeSegment_of_samePlace (loader : Loader) (index : Nat) (hmemory : m.memory = n.memory)
    (hplace : ph.SamePlace ph')
    (hslice : file.slice ph.offset.toNat ph.fileSize.toNat =
      file'.slice ph.offset.toNat ph.fileSize.toNat) :
    Related Eq (loader.placeSegment (.file file) index ph)
      (loader.placeSegment (.file file') index ph') m n := by
  cases htarget : loader.target ph.physicalAddress with
  | error fault =>
    have htarget' := htarget
    rw [hplace.physicalAddress] at htarget'
    exact .of_error (placeSegment_of_no_target htarget) (placeSegment_of_no_target htarget') hmemory
  | ok target =>
    have htarget' := htarget
    rw [hplace.physicalAddress] at htarget'
    -- The lines that announce the segments may differ, since they show the flags.
    obtain ⟨records, hm⟩ := placeSegment_of_target (.file file) index m htarget
    obtain ⟨records', hn⟩ := placeSegment_of_target (.file file') index n htarget'
    rw [← hplace.copyFile_eq, ← hplace.zeroRest_eq] at hn
    have hcopy : Related Eq (copyFile (.file file) target ph) (copyFile (.file file') target ph)
        { m with records } { n with records := records' } :=
      copyFile_of_slice hsize target hmemory hslice
    exact .of_runs hm hn (hcopy.bind fun _ _ _ _ _ hbetween =>
      zeroRest_related bisimulation_eq loader index target ph hbetween)

theorem placeEntry_of_piece (loader : Loader) (index : Nat) (hmemory : m.memory = n.memory)
    (hpiece : ph.piece? file = ph'.piece? file') :
    Related Eq (loader.placeEntry (.file file) index ph) (loader.placeEntry (.file file') index ph')
      m n := by
  rcases ProgramHeader.piece?_cases hpiece with
    ⟨hskip, hskip'⟩ | ⟨hload, hload', hplace, hslice⟩
  · obtain ⟨records, hm⟩ := placeEntry_of_skipped loader (.file file) index m hskip
    obtain ⟨records', hn⟩ := placeEntry_of_skipped loader (.file file') index n hskip'
    exact .of_ok hm hn hmemory
  · rw [placeEntry_of_loadable hload, placeEntry_of_loadable hload']
    exact placeSegment_of_samePlace hsize loader index hmemory hplace hslice

theorem placeEntries_of_alike (loader : Loader) (halike : table.Alike file file') :
    ∀ {left index : Nat} {m n : Machine}, index + left ≤ table.count.toNat → m.memory = n.memory →
      Related Eq (loader.placeEntries (.file file) table left index)
        (loader.placeEntries (.file file') table left index) m n
  | 0, _, _, _, _, hmemory => .pure () hmemory
  | left + 1, index, m, n, hle, hmemory => by
    rcases halike.read_cases (by omega : index < table.count.toNat) m.memory.ram n.memory.ram with
      ⟨fault, hm, hn⟩ | ⟨ph, ph', hm, hn, hpiece⟩
    · exact .of_error (placeEntries_of_unread hm) (placeEntries_of_unread hn) hmemory
    · refine .of_runs (placeEntries_of_read hm) (placeEntries_of_read hn) ?_
      exact (placeEntry_of_piece hsize loader index hmemory hpiece).bind fun _ _ _ _ _ hbetween =>
        placeEntries_of_alike loader halike (by omega) hbetween

end Placing

/-! ## Whole loads -/

/-- Once the headers are read and agree, both files are refused for the same fault, or both are
accepted with the same entry. -/
theorem inspect_of_alike (hsize : file.length = file'.length) {ram ram' : Ram}
    {header header' : Header} (hread : Header.ofImage (.file file) ram loader.cls = .ok header)
    (hread' : Header.ofImage (.file file') ram' loader.cls = .ok header')
    (hcls : header.cls = header'.cls) (hheader : header.Alike loader.validation header')
    (hoffset : header.tableOffset = header'.tableOffset) (halike : header.table.Alike file file') :
    (∃ fault, loader.inspect (.file file) ram = .error fault ∧
        loader.inspect (.file file') ram' = .error fault) ∨
      ∃ entry, loader.inspect (.file file) ram = .ok (header, entry) ∧
        loader.inspect (.file file') ram' = .ok (header', entry) := by
  rw [inspect_of_read hread, inspect_of_read hread', hheader.entry]
  cases Entry.ofAddress? header'.entry with
  | none => exact Or.inl ⟨_, rfl, rfl⟩
  | some entry =>
    cases hvalidation : loader.validation with
    | trusted => exact Or.inr ⟨entry, rfl, rfl⟩
    | strict =>
      rw [hvalidation] at hheader
      have hvet : loader.vet (.file file) ram header = loader.vet (.file file') ram' header' :=
        vet_of_alike hsize hcls hheader hoffset halike ram ram'
      simp only [hvet]
      cases loader.vet (.file file') ram' header' with
      | error fault => exact Or.inl ⟨fault, rfl, rfl⟩
      | ok _ => exact Or.inr ⟨entry, rfl, rfl⟩

/-- Both files are refused for the same fault, or both are accepted with the same entry and the same
table. -/
theorem inspect_of_lookalike (h : loader.Lookalike file file') (ram ram' : Ram) :
    (∃ fault, loader.inspect (.file file) ram = .error fault ∧
        loader.inspect (.file file') ram' = .error fault) ∨
      ∃ header header' entry, loader.inspect (.file file) ram = .ok (header, entry) ∧
        loader.inspect (.file file') ram' = .ok (header', entry) ∧
        header.table = header'.table ∧ header.table.Alike file file' := by
  have hread := ofImage_of_shows (Image.shows_file file ram) loader.cls
  have hread' := ofImage_of_shows (Image.shows_file file' ram') loader.cls
  rw [← h.size] at hread'
  by_cases hmagic : file.slice 0 4 = magic
  case neg =>
    rw [if_neg hmagic] at hread
    rw [if_neg (mt h.magic.mpr hmagic)] at hread'
    exact Or.inl ⟨_, inspect_of_unread hread, inspect_of_unread hread'⟩
  rw [if_pos hmagic] at hread
  rw [if_pos (h.magic.mp hmagic)] at hread'
  by_cases hlong : loader.cls.headerSize.toNat ≤ file.length
  case neg =>
    rw [if_neg hlong] at hread hread'
    exact Or.inl ⟨_, inspect_of_unread hread, inspect_of_unread hread'⟩
  rw [if_pos hlong, ← Header.ofStart] at hread hread'
  have hcls : (Header.ofStart loader.cls file).cls = (Header.ofStart loader.cls file').cls := by
    rw [Header.cls_ofStart, Header.cls_ofStart]
  rcases inspect_of_alike h.size hread hread' hcls h.header h.tableOffset h.table with
    hrefused | ⟨entry, haccepted, haccepted'⟩
  · exact Or.inl hrefused
  · exact Or.inr ⟨_, _, entry, haccepted, haccepted',
      table_of_alike hcls h.header h.tableOffset, h.table⟩

/-- A loader cannot tell files apart that agree on what it goes by. On the same memory both loads
answer the same, an entry or an error, and leave the same memory. -/
theorem load_of_lookalike (h : loader.Lookalike file file') {m n : Machine}
    (hmemory : m.memory = n.memory) :
    Agree (loader.load (.file file)) (loader.load (.file file')) m n := by
  rw [Agree.iff_related]
  rcases inspect_of_lookalike h m.memory.ram n.memory.ram with
    ⟨fault, hm, hn⟩ | ⟨header, header', entry, hm, hn, htable, halike⟩
  · obtain ⟨records, hm⟩ := load_of_refused hm
    obtain ⟨records', hn⟩ := load_of_refused hn
    exact .of_error hm hn hmemory
  · have hcount : header.entryCount = header'.entryCount := congrArg Table.count htable
    have hplace : Related Eq
        (loader.placeEntries (.file file) header.table header.entryCount.toNat 0)
        (loader.placeEntries (.file file') header'.table header'.entryCount.toNat 0)
        (announced m header entry) (announced n header' entry) := by
      rw [← htable, ← hcount]
      exact placeEntries_of_alike h.size loader halike (Nat.zero_add _ ▸ Nat.le_refl _) hmemory
    refine .of_runs (load_of_accepted hm) (load_of_accepted hn) ?_
    exact hplace.bind fun _ _ _ _ _ hleft => .pure entry hleft

/-- A file with a segment to be loaded and a note. -/
def annotated : Bytes :=
  Draft.layOut
    { Draft.ofClass .elf32 with
      entry := 0x1000
      segments := [⟨loadable, 0x1000, none, [1, 2, 3, 4], 0x18⟩, ⟨4, 0, none, [5, 6], 2⟩] }

/-- The file with other section fields in the header, another virtual address, other flags and
another alignment of the segment, and with another note. -/
def reannotated : Bytes :=
  let patch (offset len : Nat) (file : Bytes) : Bytes :=
    file.overlay offset (List.replicate len 0xFF)
  annotated |> patch 32 8 |> patch 60 4 |> patch 76 8 |> patch 88 28 |> patch 120 2

/-- A strict loader cannot tell them apart. -/
theorem load_of_lookalike_annotated :
    annotated ≠ reannotated ∧ Lookalike ⟨.elf32, .bits32, .strict⟩ annotated reannotated ∧
      ∀ machine, Agree (load ⟨.elf32, .bits32, .strict⟩ (.file annotated))
        (load ⟨.elf32, .bits32, .strict⟩ (.file reannotated)) machine machine := by
  have halike : Lookalike ⟨.elf32, .bits32, .strict⟩ annotated reannotated :=
    { size := by decide +kernel
      magic := by decide +kernel
      header :=
        { entry := by decide +kernel
          entryCount := by decide +kernel
          classByte := by decide +kernel
          dataByte := by decide +kernel
          entrySize := by decide +kernel }
      tableOffset := by decide +kernel
      table := by decide +kernel }
  exact ⟨by decide +kernel, halike, fun machine => load_of_lookalike halike rfl⟩

end Loader

end Chainload.Elf
