import Chainload.Elf.Draft
import Chainload.Proofs.Strictness

/-!
# What a strict loader requires of a file

The requirements on a file (`Elf.requirements`) stand in the order in which they are looked at, each
with the fault that reports that it is not met. They are about natural numbers: no sum in them
wraps, and an address or an offset may lie anywhere.

A strict loader computes with 64-bit words. It comes to the verdict of the requirements all the
same (`Loader.inspect_eq_verdict`): where a sum of words would wrap, the sum of the numbers is
beyond every file and every pointer.
-/

namespace Chainload.Elf

open Chainload.Action

/-! ## Requirements and verdicts -/

/-- A condition on a file, and the fault that reports that it is not met. -/
structure Requirement where
  met : Bool
  fault : Fault
  deriving DecidableEq, Repr

/-- The first requirement that is not met. -/
def firstUnmet? (requirements : List Requirement) : Option Requirement :=
  requirements.find? fun requirement => !requirement.met

/-- What comes of looking at requirements one after the other. -/
def verdict (requirements : List Requirement) : Except Fault Unit :=
  match firstUnmet? requirements with
  | none => .ok ()
  | some requirement => .error requirement.fault

theorem verdict_nil : verdict [] = .ok () :=
  rfl

theorem verdict_cons (requirement : Requirement) (rest : List Requirement) :
    verdict (requirement :: rest) =
      if requirement.met then verdict rest else .error requirement.fault := by
  cases h : requirement.met <;> simp [verdict, firstUnmet?, h]

theorem verdict_append (first second : List Requirement) :
    verdict (first ++ second) = verdict first >>= fun _ => verdict second := by
  induction first with
  | nil => rfl
  | cons requirement rest ih =>
    rw [List.cons_append, verdict_cons, verdict_cons, ih]
    split <;> rfl

theorem firstUnmet?_eq_none_iff {requirements : List Requirement} :
    firstUnmet? requirements = none ↔ ∀ requirement ∈ requirements, requirement.met = true := by
  simp [firstUnmet?]

theorem verdict_eq_ok_iff {requirements : List Requirement} :
    verdict requirements = .ok () ↔ ∀ requirement ∈ requirements, requirement.met = true := by
  rw [← firstUnmet?_eq_none_iff, verdict]
  cases firstUnmet? requirements <;> simp

/-! ## The requirements on a file -/

namespace ProgramHeader

/-- The last address of a segment, and its first one if it takes up no memory. -/
def lastByte (ph : ProgramHeader) : Nat :=
  ph.physicalAddress.toNat + max ph.memorySize.toNat 1 - 1

/-- The address that is named when the last one is out of reach: that one, or the first address if
the last one is none of 64 bits. -/
def blamedAddress (ph : ProgramHeader) : UInt64 :=
  if ph.lastByte < UInt64.size then UInt64.ofNat ph.lastByte else ph.physicalAddress

end ProgramHeader

/-- The program header with an index, in a table whose offsets do not wrap. -/
def Header.entryAt (header : Header) (file : Bytes) (index : Nat) : ProgramHeader :=
  .decode header.cls
    (file.slice (header.tableOffset.toNat + index * header.cls.stride.toNat)
      header.cls.stride.toNat)

section Requirements

variable (width : Width) (file : Bytes)

/-- What is required of the start of a file, read as a header. -/
def startRequirements (header : Header) : List Requirement :=
  [⟨file.slice 0 4 = magic, .notElf⟩,
    ⟨header.cls.headerSize.toNat ≤ file.length, .image ⟨0, header.cls.headerSize⟩⟩,
    ⟨header.entry ≠ 0, .entryZero⟩]

/-- What is required of the identification that a header carries. -/
def identRequirements (header : Header) : List Requirement :=
  [⟨header.classByte = header.cls.ident, .wrongClass header.cls header.classByte⟩,
    ⟨header.dataByte = littleEndian, .wrongEncoding header.dataByte⟩,
    ⟨header.entrySize = header.cls.entrySize,
      .wrongEntrySize header.cls.entrySize header.entrySize⟩]

/-- What is required of the addresses and offsets in a header. -/
def placeRequirements (header : Header) : List Requirement :=
  [⟨header.entry.toNat ≤ width.highest.toNat, .beyondReach header.entry width⟩,
    ⟨header.tableOffset.toNat + header.entryCount.toNat * header.cls.stride.toNat ≤ file.length,
      .image ⟨header.tableOffset, header.tableSize⟩⟩]

/-- What is required of a segment. -/
def segmentRequirements (index : Nat) (ph : ProgramHeader) : List Requirement :=
  [⟨ph.fileSize.toNat ≤ ph.memorySize.toNat,
      .memoryBelowFile index ph.fileSize ph.memorySize⟩,
    ⟨ph.offset.toNat + ph.fileSize.toNat ≤ file.length, .image ⟨ph.offset, ph.fileSize⟩⟩,
    ⟨ph.lastByte ≤ width.highest.toNat, .beyondReach ph.blamedAddress width⟩]

/-- What is required of the program header with an index: nothing unless its segment is loaded. -/
def entryRequirements (header : Header) (index : Nat) : List Requirement :=
  if (header.entryAt file index).isLoadable then
    segmentRequirements width file index (header.entryAt file index)
  else []

/-- What a strict loader requires of a file, in order. -/
def requirements (cls : Class) : List Requirement :=
  let header := Header.decode cls (file.slice 0 cls.headerSize.toNat)
  startRequirements file header ++ (identRequirements header ++
    (placeRequirements width file header ++
      (List.range header.entryCount.toNat).flatMap (entryRequirements width file header)))

end Requirements

/-! ## Words and numbers -/

@[simp] theorem Header.cls_decode (cls : Class) (bytes : Bytes) : (decode cls bytes).cls = cls := by
  cases cls <;> rfl

theorem Header.toNat_tableSize (header : Header) :
    header.tableSize.toNat = header.entryCount.toNat * header.cls.stride.toNat := by
  have hcount := header.entryCount.toNat_lt
  have hword : header.entryCount.toUInt64.toNat = header.entryCount.toNat := rfl
  have hstride : header.cls.stride.toNat ≤ 56 := by cases header.cls <;> decide
  have hproduct : header.entryCount.toNat * header.cls.stride.toNat ≤ 65536 * 56 :=
    Nat.mul_le_mul (by omega) hstride
  rw [tableSize, UInt64.toNat_mul, hword, Nat.mod_eq_of_lt (by omega)]

/-- An offset in a table is not cut down if it is below `2 ^ 64`. -/
theorem Table.toNat_offsetOf {table : Table} {index : Nat}
    (h : table.offset.toNat + index * table.cls.stride.toNat < UInt64.size) :
    (table.offsetOf index).toNat = table.offset.toNat + index * table.cls.stride.toNat := by
  rw [table.toNat_offsetOf_eq_mod index, Nat.mod_eq_of_lt h]

namespace ProgramHeader

/-- The last address of a segment as a word is its last address, if that is below `2 ^ 64`. -/
theorem lastAddress?_eq (ph : ProgramHeader) :
    ph.lastAddress? =
      if ph.lastByte < UInt64.size then some (UInt64.ofNat ph.lastByte) else none := by
  have hbeyond : (if ph.memorySize = 0 then 0 else ph.memorySize - 1).toNat =
      max ph.memorySize.toNat 1 - 1 := by
    split
    case isTrue hempty =>
      rw [hempty]
      rfl
    case isFalse hne =>
      have hpos : 0 < ph.memorySize.toNat :=
        Nat.pos_of_ne_zero fun hzero => hne (UInt64.toNat_inj.mp hzero)
      have hone : (1 : UInt64) ≤ ph.memorySize := UInt64.le_iff_toNat_le.mpr hpos
      rw [UInt64.toNat_sub_of_le _ _ hone, Nat.max_eq_left hpos]
      rfl
  have hsum : ph.physicalAddress.toNat + (max ph.memorySize.toNat 1 - 1) = ph.lastByte := by
    unfold lastByte
    omega
  unfold lastAddress?
  dsimp only
  rw [hbeyond, hsum]
  split
  case isTrue hlt =>
    refine congrArg some (UInt64.toNat_inj.mp ?_)
    rw [UInt64.toNat_add, hbeyond, hsum, UInt64.toNat_ofNat']
  case isFalse => rfl

end ProgramHeader

/-! ## The verdict of a strict loader -/

namespace Loader

variable {loader : Loader} {file : Bytes} {header : Header} {ph : ProgramHeader}

theorem highest_lt (width : Width) : width.highest.toNat < UInt64.size := by
  cases width <;> decide

/-- A sum within reach of the pointers does not wrap, and nothing is cut off. -/
theorem toNat_truncate_add {width : Width} {a b : UInt64}
    (h : a.toNat + b.toNat ≤ width.highest.toNat) :
    (width.truncate (a + b)).toNat = a.toNat + b.toNat := by
  have hhighest := highest_lt width
  have hsum : (a + b).toNat = a.toNat + b.toNat := by
    rw [UInt64.toNat_add]
    exact Nat.mod_eq_of_lt (Nat.lt_of_le_of_lt h hhighest)
  rw [Width.truncate_of_reaches ((Width.reaches_iff ..).mpr (hsum ▸ h)), hsum]

/-- Of a segment that is no smaller in memory than in the file and whose range lies in the image, it
is the last address that decides. -/
theorem checkSegment_of_inside {image : Image} {index : Nat} (hsizes : ph.fileSize ≤ ph.memorySize)
    (hinside : image.contains ph.offset ph.fileSize = true) :
    loader.checkSegment image index ph =
      if ph.lastByte ≤ loader.width.highest.toNat then .ok ()
      else .error (.beyondReach ph.blamedAddress loader.width) := by
  rw [checkSegment, if_neg (UInt64.not_lt.mpr hsizes), hinside, ph.lastAddress?_eq,
    ProgramHeader.blamedAddress]
  have hhighest := highest_lt loader.width
  by_cases hword : ph.lastByte < UInt64.size
  · have hreaches : loader.width.reaches (UInt64.ofNat ph.lastByte) =
        decide (ph.lastByte ≤ loader.width.highest.toNat) := by
      rw [Bool.eq_iff_iff, Width.reaches_iff, decide_eq_true_eq, UInt64.toNat_ofNat_of_lt' hword]
    simp only [if_pos hword, hreaches, decide_eq_true_eq]
    rfl
  · simp only [if_neg hword, if_neg (show ¬ph.lastByte ≤ loader.width.highest.toNat by omega)]
    rfl

theorem checkSegment_eq_verdict (loader : Loader) (file : Bytes) (index : Nat)
    (ph : ProgramHeader) :
    loader.checkSegment (.file file) index ph =
      verdict (segmentRequirements loader.width file index ph) := by
  simp only [segmentRequirements, verdict_cons, verdict_nil, decide_eq_true_eq]
  by_cases hsizes : ph.memorySize < ph.fileSize
  · rw [checkSegment, if_pos hsizes, if_neg (Nat.not_le.mpr (UInt64.lt_iff_toNat_lt.mp hsizes))]
  rw [if_pos (UInt64.le_iff_toNat_le.mp (UInt64.not_lt.mp hsizes))]
  by_cases hinside : ph.offset.toNat + ph.fileSize.toNat ≤ file.length
  case neg =>
    have hcontains : (Image.file file).contains ph.offset ph.fileSize = false :=
      Bool.eq_false_iff.mpr (mt Image.contains_iff.mp hinside)
    rw [checkSegment, if_neg hsizes, hcontains, if_neg hinside]
    rfl
  have hcontains : (Image.file file).contains ph.offset ph.fileSize = true :=
    Image.contains_iff.mpr hinside
  rw [if_pos hinside, checkSegment_of_inside (UInt64.not_lt.mp hsizes) hcontains]

theorem checkIdent_eq_verdict (header : Header) :
    header.checkIdent = verdict (identRequirements header) := by
  simp only [Header.checkIdent, identRequirements, verdict_cons, verdict_nil, decide_eq_true_eq,
    ne_eq, ite_not]

/-- A program header of a table that lies in the file is read where the numbers say. -/
theorem read_entryAt {index : Nat} (ram : Ram) (hsize : file.length < UInt64.size)
    (h : header.tableOffset.toNat + (index + 1) * header.cls.stride.toNat ≤ file.length) :
    header.table.read (.file file) ram index = .ok (header.entryAt file index) := by
  have hend : (index + 1) * header.cls.stride.toNat =
      index * header.cls.stride.toNat + header.cls.stride.toNat := Nat.succ_mul _ _
  have hoffset : (header.table.offsetOf index).toNat =
      header.tableOffset.toNat + index * header.cls.stride.toNat :=
    Table.toNat_offsetOf (by show header.tableOffset.toNat + index * header.cls.stride.toNat < _
                             omega)
  rw [Table.read_eq_ok_iff (Image.shows_file file ram), Table.entry?, hoffset]
  exact if_pos (by show _ + header.cls.stride.toNat ≤ _
                   omega)

/-- The checks of a table that lies in the file come to the verdict of its requirements. -/
theorem checkEntries_eq_verdict (loader : Loader) (ram : Ram) (hsize : file.length < UInt64.size) :
    ∀ left index : Nat,
      header.tableOffset.toNat + (index + left) * header.cls.stride.toNat ≤ file.length →
      loader.checkEntries (.file file) ram header.table left index =
        verdict ((List.range' index left).flatMap (entryRequirements loader.width file header))
  | 0, _, _ => rfl
  | left + 1, index, h => by
    have hnext : header.tableOffset.toNat + (index + 1 + left) * header.cls.stride.toNat ≤
        file.length := by rwa [Nat.add_assoc, Nat.add_comm 1 left]
    have hfirst : header.tableOffset.toNat + (index + 1) * header.cls.stride.toNat ≤ file.length :=
      Nat.le_trans (Nat.add_le_add_left (Nat.mul_le_mul_right _ (Nat.le_add_right _ _)) _) hnext
    rw [checkEntries, read_entryAt ram hsize hfirst, ok_bind, List.range'_succ,
      List.flatMap_cons, verdict_append, entryRequirements,
      checkEntries_eq_verdict loader ram hsize left (index + 1) hnext]
    cases (header.entryAt file index).isLoadable with
    | false => rfl
    | true => rw [checkSegment_eq_verdict]; rfl

/-- The words of a header are where the requirements on its addresses and offsets say. -/
theorem placeRequirements_eq (width : Width) (file : Bytes) (header : Header) :
    placeRequirements width file header =
      [⟨width.reaches header.entry, .beyondReach header.entry width⟩,
        ⟨(Image.file file).contains header.tableOffset header.tableSize,
          .image ⟨header.tableOffset, header.tableSize⟩⟩] := by
  have hentry : decide (header.entry.toNat ≤ width.highest.toNat) = width.reaches header.entry := by
    rw [Bool.eq_iff_iff, decide_eq_true_eq, Width.reaches_iff]
  rw [placeRequirements, hentry, ← header.toNat_tableSize]
  rfl

/-- What a strict loader checks of a file with a header comes to the verdict of the requirements on
the header and the table. -/
theorem vet_eq_verdict (loader : Loader) (ram : Ram) (header : Header)
    (hsize : file.length < UInt64.size) :
    loader.vet (.file file) ram header =
      verdict (identRequirements header ++ (placeRequirements loader.width file header ++
        (List.range header.entryCount.toNat).flatMap
          (entryRequirements loader.width file header))) := by
  rw [vet, checkIdent_eq_verdict, verdict_append, placeRequirements_eq]
  refine bind_congr fun _ => ?_
  rw [List.cons_append, verdict_cons, List.cons_append, verdict_cons, List.nil_append]
  cases loader.width.reaches header.entry with
  | false => rfl
  | true =>
    cases hcontains : (Image.file file).contains header.tableOffset header.tableSize with
    | false => rfl
    | true =>
      have htable : header.tableOffset.toNat +
          (0 + header.entryCount.toNat) * header.cls.stride.toNat ≤ file.length := by
        rw [Nat.zero_add, ← header.toNat_tableSize]
        exact Image.contains_iff.mp hcontains
      rw [List.range_eq_range']
      exact checkEntries_eq_verdict loader ram hsize _ 0 htable

/-- The inspection of a file by a strict loader comes to the verdict of all requirements. -/
theorem inspect_eq_verdict (cls : Class) (width : Width) (ram : Ram)
    (hsize : file.length < UInt64.size) :
    (inspect ⟨cls, width, .strict⟩ (.file file) ram).map (fun _ => ()) =
      verdict (requirements width file cls) := by
  rw [inspect, ofImage_of_shows (Image.shows_file file ram), requirements, startRequirements,
    Header.cls_decode, List.cons_append, List.cons_append, List.cons_append, List.nil_append,
    verdict_cons, verdict_cons, verdict_cons]
  simp only [decide_eq_true_eq]
  by_cases hmagic : file.slice 0 4 = magic
  case neg =>
    rw [if_neg hmagic, if_neg hmagic]
    rfl
  rw [if_pos hmagic, if_pos hmagic]
  by_cases hheader : cls.headerSize.toNat ≤ file.length
  case neg =>
    rw [if_neg hheader, if_neg hheader]
    rfl
  rw [if_pos hheader, if_pos hheader, ok_bind]
  generalize Header.decode cls (file.slice 0 cls.headerSize.toNat) = header
  by_cases hentry : header.entry = 0
  · have hnull : ¬header.entry ≠ 0 := fun hne => hne hentry
    have hnone : Entry.ofAddress? header.entry = none := dif_neg hnull
    simp only [hnone, if_neg hnull]
    rfl
  · have hsome : Entry.ofAddress? header.entry = some ⟨header.entry, hentry⟩ := dif_pos hentry
    simp only [hsome, if_pos hentry]
    rw [← vet_eq_verdict ⟨cls, width, .strict⟩ ram header hsize]
    show ((vet _ _ _ _ >>= fun _ => _) : Except _ _).map _ = _
    cases vet ⟨cls, width, .strict⟩ (.file file) ram header <;> rfl

section Load

variable {cls : Class} {width : Width} {machine : Machine} {fault : Fault}

theorem inspect_of_met (ram : Ram) (hsize : file.length < UInt64.size)
    (h : verdict (requirements width file cls) = .ok ()) :
    ∃ header entry, inspect ⟨cls, width, .strict⟩ (.file file) ram = .ok (header, entry) := by
  rw [← inspect_eq_verdict cls width ram hsize] at h
  cases hinspect : inspect ⟨cls, width, .strict⟩ (.file file) ram with
  | error fault =>
    rw [hinspect] at h
    cases h
  | ok found => exact ⟨found.1, found.2, rfl⟩

end Load

/-- A file with one segment of the given size in memory, eight bytes below the highest address. -/
def nearTop (memorySize : UInt64) : Draft :=
  { Draft.ofClass .elf64 with
    entry := 0x10
    segments := [⟨loadable, 0xFFFF_FFFF_FFFF_FFF8, none, [1, 2], memorySize⟩] }

end Loader

end Chainload.Elf
