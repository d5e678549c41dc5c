import Chainload.Proofs.LoadedMemory
import Chainload.Proofs.Rejection

/-!
# Where a load fails and what it leaves

A load of a file into a window fails in one of two ways.

* The file is rejected before anything is written (`Loader.Rejects`).
* A program header cannot be dealt with (`Table.Refuses`): the file does not hold it or the bytes of
  its segment, or the window does not cover what is to be copied or zeroed. Those before it could
  (`Table.Admits`), and memory holds what they wrote. Of the segment itself something is written
  only if its zeros are refused: the bytes of the file.

The step from one program header to the next is `Loader.placeEntry_cases`, the run over a table
`Loader.placeEntries_cases`. Both are about a trusting loader. A strict one places what it has
accepted in the same way.
-/

namespace Chainload.Elf

open Chainload.Action Memory

/-! ## What file and window have to hold -/

namespace ProgramHeader

/-- File and window hold what it takes to place a segment. -/
structure Fits (width : Width) (file : Bytes) (ram : Ram) (ph : ProgramHeader) : Prop where
  bytes : HoldsSegment file ph
  copy : ph.fileSize ≠ 0 →
    ram.covers (ph.filePart width).start (ph.filePart width).len = true
  zeros : ph.zeroFill ≠ 0 →
    ram.covers (ph.zeroPart width).start (ph.zeroPart width).len = true

end ProgramHeader

namespace Table

/-- The program header with an index can be dealt with: the file holds it, and if its segment is to
be loaded, the segment can be placed. -/
def Admits (table : Table) (width : Width) (file : Bytes) (ram : Ram) (index : Nat) : Prop :=
  ∃ ph, table.entry? file index = some ph ∧ (ph.isLoadable = true → ph.Fits width file ram)

/-- The program header with an index cannot be dealt with. The fault says why, and the patch is what
is written all the same. -/
inductive Refuses (table : Table) (width : Width) (file : Bytes) (ram : Ram) (index : Nat) :
    Fault → (Nat → Option UInt8) → Prop
  /-- The file does not hold the program header. -/
  | unread (h : table.entry? file index = none) :
    Refuses table width file ram index
      (.image ⟨table.offsetOf index, table.cls.stride⟩) fun _ => none
  /-- The file does not hold the bytes of the segment. -/
  | noBytes {ph : ProgramHeader} (h : table.entry? file index = some ph)
    (hload : ph.isLoadable = true) (hne : ph.fileSize ≠ 0)
    (hbytes : file.length < ph.offset.toNat + ph.fileSize.toNat) :
    Refuses table width file ram index (.image ⟨ph.offset, ph.fileSize⟩) fun _ => none
  /-- The window does not cover where the bytes of the file go. -/
  | noCopy {ph : ProgramHeader} (h : table.entry? file index = some ph)
    (hload : ph.isLoadable = true) (hne : ph.fileSize ≠ 0) (hbytes : HoldsSegment file ph)
    (hcopy : ram.covers (ph.filePart width).start (ph.filePart width).len = false) :
    Refuses table width file ram index
      (.memory ⟨width.truncate ph.physicalAddress, ph.fileSize⟩) fun _ => none
  /-- The window does not cover where the zeros go. The bytes of the file were copied. -/
  | noZeros {ph : ProgramHeader} (h : table.entry? file index = some ph)
    (hload : ph.isLoadable = true) (hne : ph.zeroFill ≠ 0) (hbytes : HoldsSegment file ph)
    (hcopy : ph.fileSize ≠ 0 →
      ram.covers (ph.filePart width).start (ph.filePart width).len = true)
    (hzeros : ram.covers (ph.zeroPart width).start (ph.zeroPart width).len = false) :
    Refuses table width file ram index
      (.memory ⟨width.truncate (width.truncate ph.physicalAddress + ph.fileSize), ph.zeroFill⟩)
      (ph.copied? width file)

variable {table : Table} {width : Width} {file : Bytes} {ram : Ram} {index : Nat} {fault : Fault}
  {patch : Nat → Option UInt8}

/-- What can be dealt with is not refused. -/
theorem Admits.not_refuses (h : table.Admits width file ram index) :
    ¬table.Refuses width file ram index fault patch := by
  obtain ⟨ph, hentry, hfits⟩ := h
  rintro (hnone | ⟨hsome, hload, hne, hbytes⟩ | ⟨hsome, hload, hne, -, hcopy⟩ |
    ⟨hsome, hload, hne, -, -, hzeros⟩)
  · cases hentry.symm.trans hnone
  · cases hentry.symm.trans hsome
    exact absurd ((hfits hload).bytes hne) (Nat.not_le.mpr hbytes)
  · cases hentry.symm.trans hsome
    rw [(hfits hload).copy hne] at hcopy
    cases hcopy
  · cases hentry.symm.trans hsome
    rw [(hfits hload).zeros hne] at hzeros
    cases hzeros

/-- A refusal is a fault of the image or of memory. -/
theorem Refuses.fault_cases (h : table.Refuses width file ram index fault patch) :
    (∃ range, fault = .image range) ∨ ∃ range, fault = .memory range := by
  cases h with
  | unread | noBytes => exact Or.inl ⟨_, rfl⟩
  | noCopy | noZeros => exact Or.inr ⟨_, rfl⟩

theorem Refuses.not_atStart (h : table.Refuses width file ram index fault patch) :
    ¬fault.AtStart := by
  rcases h.fault_cases with ⟨range, rfl⟩ | ⟨range, rfl⟩ <;> exact (nomatch ·)

/-- Only the place of the window matters, not what it holds. -/
theorem admits_congr {ram' : Ram} (hbase : ram'.base = ram.base) (hsize : ram'.size = ram.size)
    (h : table.Admits width file ram' index) : table.Admits width file ram index := by
  obtain ⟨ph, hentry, hfits⟩ := h
  refine ⟨ph, hentry, fun hload => ⟨(hfits hload).bytes, fun hne => ?_, fun hne => ?_⟩⟩
  · rw [← Ram.covers_congr hbase hsize]
    exact (hfits hload).copy hne
  · rw [← Ram.covers_congr hbase hsize]
    exact (hfits hload).zeros hne

theorem refuses_congr {ram' : Ram} (hbase : ram'.base = ram.base) (hsize : ram'.size = ram.size)
    (h : table.Refuses width file ram' index fault patch) :
    table.Refuses width file ram index fault patch := by
  have hcovers := Ram.covers_congr hbase hsize
  cases h with
  | unread h => exact .unread h
  | noBytes h hload hne hbytes => exact .noBytes h hload hne hbytes
  | noCopy h hload hne hbytes hcopy => exact .noCopy h hload hne hbytes (by rwa [← hcovers])
  | noZeros h hload hne hbytes hcopy hzeros =>
    exact .noZeros h hload hne hbytes (fun hne => by rw [← hcovers]; exact hcopy hne)
      (by rwa [← hcovers])

end Table

namespace Loader

variable {loader : Loader} {file : Bytes} {table : Table} {ph : ProgramHeader} {target : UInt64}
  {index left : Nat} {machine after : Machine} {fault : Fault} {header : Header} {entry : Entry}

/-! ## The two accesses of a segment -/

section Window

variable (hwindow : machine.memory.mapping = .window)
include hwindow

theorem request_store_cases (target : UInt64) (bytes : Bytes) :
    (machine.memory.ram.covers target.toNat bytes.length = true ∧
      ∃ after, request (.store target bytes) machine = .ok () after) ∨
    machine.memory.ram.covers target.toNat bytes.length = false ∧
      ∃ after, request (.store target bytes) machine =
        .error (.memory ⟨target, UInt64.ofNat bytes.length⟩) after := by
  have hperform := perform_store hwindow target bytes
  unfold request
  cases hcovers : machine.memory.ram.covers target.toNat bytes.length with
  | true =>
    rw [hcovers] at hperform
    exact Or.inl ⟨rfl, _, mapError_of_ok (request_of_ok hperform)⟩
  | false =>
    rw [hcovers] at hperform
    exact Or.inr ⟨rfl, _, mapError_of_error (request_of_error hperform)⟩

theorem request_clear_cases (target len : UInt64) :
    (machine.memory.ram.covers target.toNat len.toNat = true ∧
      ∃ after, request (.clear target len) machine = .ok () after) ∨
    machine.memory.ram.covers target.toNat len.toNat = false ∧
      ∃ after, request (.clear target len) machine = .error (.memory ⟨target, len⟩) after := by
  have hperform := perform_clear hwindow target len
  unfold request
  cases hcovers : machine.memory.ram.covers target.toNat len.toNat with
  | true =>
    rw [hcovers] at hperform
    exact Or.inl ⟨rfl, _, mapError_of_ok (request_of_ok hperform)⟩
  | false =>
    rw [hcovers] at hperform
    exact Or.inr ⟨rfl, _, mapError_of_error (request_of_error hperform)⟩

/-- The bytes of a segment are copied, or the file does not hold them, or the window does not cover
where they go. -/
theorem copyFile_cases (file : Bytes) (target : UInt64) (ph : ProgramHeader) :
    ((∃ after, copyFile (.file file) target ph machine = .ok () after) ∧ HoldsSegment file ph ∧
      (ph.fileSize ≠ 0 →
        machine.memory.ram.covers target.toNat ph.fileSize.toNat = true)) ∨
    (ph.fileSize ≠ 0 ∧ file.length < ph.offset.toNat + ph.fileSize.toNat ∧
      ∃ after, copyFile (.file file) target ph machine =
        .error (.image ⟨ph.offset, ph.fileSize⟩) after) ∨
    (ph.fileSize ≠ 0 ∧ HoldsSegment file ph ∧
      machine.memory.ram.covers target.toNat ph.fileSize.toNat = false ∧
      ∃ after, copyFile (.file file) target ph machine =
        .error (.memory ⟨target, ph.fileSize⟩) after) := by
  by_cases hempty : ph.fileSize = 0
  · exact Or.inl ⟨⟨machine, copyFile_of_empty hempty⟩, fun hne => absurd hempty hne,
      fun hne => absurd hempty hne⟩
  have hread := readRange_of_shows (Image.shows_file file machine.memory.ram) ph.offset ph.fileSize
  by_cases hinside : ph.offset.toNat + ph.fileSize.toNat ≤ file.length
  case neg =>
    rw [if_neg hinside] at hread
    exact Or.inr (Or.inl
      ⟨hempty, Nat.not_le.mp hinside, machine, copyFile_of_unread hempty hread⟩)
  rw [if_pos hinside] at hread
  have hlen : (file.slice ph.offset.toNat ph.fileSize.toNat).length = ph.fileSize.toNat :=
    Bytes.length_slice hinside
  have hrequest := request_store_cases hwindow target
    (file.slice ph.offset.toNat ph.fileSize.toNat)
  rw [hlen, UInt64.ofNat_toNat, ← copyFile_of_read hempty hread] at hrequest
  rcases hrequest with ⟨hcovers, hrun⟩ | ⟨hcovers, hrun⟩
  · exact Or.inl ⟨hrun, fun _ => hinside, fun _ => hcovers⟩
  · exact Or.inr (Or.inr ⟨hempty, fun _ => hinside, hcovers, hrun⟩)

/-- The rest of a segment is zeroed, or the window does not cover it. -/
theorem zeroRest_cases (loader : Loader) (index : Nat) (target : UInt64) (ph : ProgramHeader) :
    ((∃ after, loader.zeroRest index target ph machine = .ok () after) ∧
      (ph.zeroFill ≠ 0 →
        machine.memory.ram.covers (loader.zeroStart target ph).toNat ph.zeroFill.toNat = true)) ∨
    (ph.zeroFill ≠ 0 ∧
      machine.memory.ram.covers (loader.zeroStart target ph).toNat ph.zeroFill.toNat = false ∧
      ∃ after, loader.zeroRest index target ph machine =
        .error (.memory ⟨loader.zeroStart target ph, ph.zeroFill⟩) after) := by
  by_cases hnone : ph.zeroFill = 0
  · exact Or.inl ⟨⟨machine, zeroRest_of_none hnone⟩, fun hne => absurd hnone hne⟩
  obtain ⟨records, heq⟩ := zeroRest_of_some loader index target machine hnone
  have hnoted : ({ machine with records } : Machine).memory.mapping = .window := hwindow
  have hrequest := request_clear_cases hnoted (loader.zeroStart target ph) ph.zeroFill
  rw [← heq] at hrequest
  rcases hrequest with ⟨hcovers, hrun⟩ | ⟨hcovers, hrun⟩
  · exact Or.inl ⟨hrun, fun _ => hcovers⟩
  · exact Or.inr ⟨hnone, hcovers, hrun⟩

end Window

/-! ## One program header -/

theorem target_of_trusted (hvalidation : loader.validation = .trusted) (address : UInt64) :
    loader.target address = .ok (loader.width.truncate address) := by
  unfold Loader.target
  split
  case isTrue hreaches => rw [Width.truncate_of_reaches hreaches]
  case isFalse => rw [hvalidation]; rfl

section Trusted

variable (hvalidation : loader.validation = .trusted)
  (hwindow : machine.memory.mapping = .window)
include hvalidation hwindow

/-- A trusting loader deals with a program header, or it is refused and leaves what the refusal
says. -/
theorem placeEntry_cases (hentry : table.entry? file index = some ph) :
    (∃ after, loader.placeEntry (.file file) index ph machine = .ok () after ∧
      table.Admits loader.width file machine.memory.ram index) ∨
    ∃ fault after patch, loader.placeEntry (.file file) index ph machine = .error fault after ∧
      table.Refuses loader.width file machine.memory.ram index fault patch ∧
      Overwritten machine.memory patch after.memory := by
  cases hload : ph.isLoadable with
  | false =>
    obtain ⟨records, heq⟩ := placeEntry_of_skipped loader (.file file) index machine hload
    refine Or.inl ⟨_, heq, ph, hentry, fun h => ?_⟩
    rw [hload] at h
    cases h
  | true =>
    have htarget := target_of_trusted hvalidation ph.physicalAddress
    obtain ⟨hstart, hzero⟩ := target_eq_ok htarget
    obtain ⟨records, heq⟩ := placeSegment_of_target (.file file) index machine htarget
    rw [placeEntry_of_loadable hload, heq]
    have hnoted : ({ machine with records } : Machine).memory.mapping = .window := hwindow
    have hlen : ph.zeroFill.toNat = (ph.zeroPart loader.width).len := ph.toNat_zeroFill
    rcases copyFile_cases hnoted file (loader.width.truncate ph.physicalAddress) ph with
      ⟨⟨between, hcopy⟩, hbytes, hcovers⟩ | ⟨hne, hbytes, after, hcopy⟩ |
      ⟨hne, hbytes, hcovers, after, hcopy⟩
    · have hcopied := (copyFile_ok hnoted (Image.shows_file file _) hstart hcopy).1
      rw [bind_of_ok hcopy]
      have hzeros := zeroRest_cases (hcopied.window hwindow) loader index
        (loader.width.truncate ph.physicalAddress) ph
      rw [hcopied.covers, hzero, hlen] at hzeros
      rcases hzeros with ⟨⟨after, hclear⟩, hcleared⟩ | ⟨hne, hrefused, after, hclear⟩
      · exact Or.inl ⟨after, hclear, ph, hentry, fun _ => ⟨hbytes, hcovers, hcleared⟩⟩
      · -- What was copied before the zeros were refused stays.
        refine Or.inr ⟨_, after, _, hclear, .noZeros hentry hload hne hbytes hcovers hrefused, ?_⟩
        rw [(zeroRest_eq_error hclear).1]
        exact hcopied
    · refine Or.inr ⟨_, after, _, bind_of_error hcopy, .noBytes hentry hload hne hbytes, ?_⟩
      rw [(copyFile_eq_error hcopy).1]
      exact .refl _
    · refine Or.inr ⟨_, after, _, bind_of_error hcopy,
        .noCopy hentry hload hne hbytes hcovers, ?_⟩
      rw [(copyFile_eq_error hcopy).1]
      exact .refl _

end Trusted

/-! ## A whole table -/

/-- A trusting loader deals with all program headers of a table, or with those in front of one that
is refused. -/
theorem placeEntries_cases (hvalidation : loader.validation = .trusted) :
    ∀ {left index : Nat} {machine : Machine}, machine.memory.mapping = .window →
      (∃ after, loader.placeEntries (.file file) table left index machine = .ok () after ∧
        ∀ i < left, table.Admits loader.width file machine.memory.ram (index + i)) ∨
      ∃ fault after patch done between,
        loader.placeEntries (.file file) table left index machine = .error fault after ∧
        done < left ∧
        loader.placeEntries (.file file) table done index machine = .ok () between ∧
        (∀ i < done, table.Admits loader.width file machine.memory.ram (index + i)) ∧
        table.Refuses loader.width file machine.memory.ram (index + done) fault patch ∧
        Overwritten between.memory patch after.memory
  | 0, index, machine, _ => Or.inl ⟨machine, rfl, fun i hi => absurd hi (Nat.not_lt_zero i)⟩
  | left + 1, index, machine, hwindow => by
    have hread := Table.read_of_shows (Image.shows_file file machine.memory.ram) table index
    cases hentry : table.entry? file index with
    | none =>
      rw [hentry] at hread
      exact Or.inr ⟨_, machine, _, 0, machine, placeEntries_of_unread hread, Nat.succ_pos left,
        rfl, fun i hi => absurd hi (Nat.not_lt_zero i), .unread hentry, .refl _⟩
    | some ph =>
      rw [hentry] at hread
      rw [placeEntries_of_read hread]
      rcases placeEntry_cases hvalidation hwindow hentry with
        ⟨between, hplace, hadmits⟩ | ⟨fault, after, patch, hplace, hrefuses, hover⟩
      case inr =>
        exact Or.inr ⟨fault, after, patch, 0, machine, bind_of_error hplace, Nat.succ_pos left,
          rfl, fun i hi => absurd hi (Nat.not_lt_zero i), hrefuses, hover⟩
      rw [bind_of_ok hplace]
      have hshape : SameShape machine.memory between.memory := by
        have hkeeps := placeEntry_keeps loader (.file file) index ph hwindow
        rw [memoryAfter_of_ok hplace] at hkeeps
        exact hkeeps.toSameShape
      -- What was dealt with first and then the rest, as far as it goes.
      have hall : ∀ {count : Nat}, (∀ i < count,
          table.Admits loader.width file between.memory.ram (index + 1 + i)) →
          ∀ i < count + 1, table.Admits loader.width file machine.memory.ram (index + i)
        | _, _, 0, _ => hadmits
        | _, hrest, i + 1, hi => by
          rw [← Nat.add_assoc, Nat.add_right_comm]
          exact Table.admits_congr hshape.base hshape.size (hrest i (Nat.lt_of_succ_lt_succ hi))
      have ih := @placeEntries_cases hvalidation left (index + 1) between (hshape.window hwindow)
      rcases ih with ⟨after, hrun, hrest⟩ |
        ⟨fault, after, patch, done, last, hrun, hdone, hfirst, hrest, hrefuses, hover⟩
      · exact Or.inl ⟨after, hrun, hall hrest⟩
      · refine Or.inr ⟨fault, after, patch, done + 1, last, hrun, Nat.succ_lt_succ hdone, ?_,
          hall hrest, ?_, hover⟩
        · rw [placeEntries_of_read hread, bind_of_ok hplace]
          exact hfirst
        · rw [Nat.add_right_comm] at hrefuses
          exact Table.refuses_congr hshape.base hshape.size hrefuses

/-! ## A whole load -/

/-- An accepted file is placed like by a trusting loader. -/
theorem placeEntries_of_accepted
    (h : loader.inspect (.file file) machine.memory.ram = .ok (header, entry)) :
    placeEntries ⟨loader.cls, loader.width, .trusted⟩ (.file file) header.table
        header.entryCount.toNat 0 (announced machine header entry) =
      loader.placeEntries (.file file) header.table header.entryCount.toNat 0
        (announced machine header entry) := by
  obtain ⟨cls, width, validation⟩ := loader
  cases validation with
  | trusted => rfl
  | strict =>
    obtain ⟨-, -, hvet⟩ := inspect_eq_ok_iff.mp h
    have hchecks : checkEntries ⟨cls, width, .strict⟩ (.file file)
        (announced machine header entry).memory.ram header.table header.entryCount.toNat 0 =
          .ok () := checkEntries_of_vet (hvet rfl)
    have hwidth : (Loader.mk cls width .trusted).width = (Loader.mk cls width .strict).width := rfl
    exact placeEntries_congr _ hwidth hchecks

/-- If an accepted file cannot be placed, a program header of it is refused. -/
theorem refused_of_accepted (hwindow : machine.memory.mapping = .window)
    (hinspect : loader.inspect (.file file) machine.memory.ram = .ok (header, entry))
    (h : loader.placeEntries (.file file) header.table header.entryCount.toNat 0
      (announced machine header entry) = .error fault after) :
    ∃ k patch between, k < header.entryCount.toNat ∧
      (∀ i < k, header.table.Admits loader.width file machine.memory.ram i) ∧
      header.table.Refuses loader.width file machine.memory.ram k fault patch ∧
      Overwritten machine.memory
        (lastWrite? loader.width file (header.table.entriesFrom file k 0)) between ∧
      Overwritten between patch after.memory := by
  rw [← placeEntries_of_accepted hinspect] at h
  have hannounced : (announced machine header entry).memory.mapping = .window := hwindow
  have htrusted : (Loader.mk loader.cls loader.width .trusted).validation = .trusted := rfl
  rcases placeEntries_cases htrusted hannounced with
    ⟨after', hrun, -⟩ |
    ⟨fault', after', patch, k, between, hrun, hk, hfirst, hadmits, hrefuses, hover⟩
  · rw [hrun] at h
    cases h
  · rw [hrun] at h
    cases h
    simp only [Nat.zero_add] at hadmits hrefuses
    exact ⟨k, patch, between.memory, hk, hadmits, hrefuses, (placeEntries_ok hannounced hfirst).1,
      hover⟩

/-- A load of a file that is rejected fails and leaves memory as it was. A load that fails in any
other way stops at a program header, the first one in the table that is refused: those before it
were dealt with, the fault is that of the refusal, and behind what the segments before it wrote
memory holds the bytes that were copied of its own segment if its zeros were refused, and nothing
else. -/
theorem load_failures (loader : Loader) (file : Bytes) {machine : Machine}
    (hwindow : machine.memory.mapping = .window) :
    (∀ fault, loader.Rejects file machine.memory.ram fault →
      ∃ after, loader.load (.file file) machine = .error fault after ∧
        after.memory = machine.memory) ∧
    ∀ fault after, loader.load (.file file) machine = .error fault after →
      (fault = .notElf ↔ file.slice 0 4 ≠ magic) ∧
      (fault = .entryZero ↔
        ∃ header, Header.ofFile? loader.cls file = some header ∧ header.entry = 0) ∧
      (loader.validation = .trusted → fault = .notElf ∨ fault = .entryZero ∨
        (∃ range, fault = .image range) ∨ ∃ range, fault = .memory range) ∧
      (loader.Rejects file machine.memory.ram fault ∧ after.memory = machine.memory ∨
        ∃ header k patch between, Header.ofFile? loader.cls file = some header ∧
          k < header.entryCount.toNat ∧
          (∀ i < k, header.table.Admits loader.width file machine.memory.ram i) ∧
          header.table.Refuses loader.width file machine.memory.ram k fault patch ∧
          Overwritten machine.memory
            (lastWrite? loader.width file (header.table.entriesFrom file k 0)) between ∧
          Overwritten between patch after.memory) := by
  refine ⟨fun fault hrejects => ?_, fun fault after hload => ?_⟩
  · obtain ⟨records, hload⟩ := load_of_refused (inspect_eq_error_iff.mpr hrejects)
    exact ⟨_, hload, rfl⟩
  rcases load_eq_error hload with ⟨hinspect, hmemory⟩ | ⟨header, entry, hinspect, hplace⟩
  · have hrejects := inspect_eq_error_iff.mp hinspect
    refine ⟨hrejects.notElf_iff, hrejects.entryZero_iff, fun htrusted => ?_,
      Or.inl ⟨hrejects, hmemory⟩⟩
    cases hrejects with
    | noMagic => exact Or.inl rfl
    | shortHeader => exact Or.inr (Or.inr (Or.inl ⟨_, rfl⟩))
    | noEntry => exact Or.inr (Or.inl rfl)
    | unsound hheader hne hstrict =>
      rw [htrusted] at hstrict
      cases hstrict
  · obtain ⟨hread, hentry, -⟩ := inspect_eq_ok_iff.mp hinspect
    have hheader := ofFile?_of_ofImage (Image.shows_file file _) hread
    obtain ⟨k, patch, between, hk, hadmits, hrefuses, hfirst, hover⟩ :=
      refused_of_accepted hwindow hinspect hplace
    refine ⟨?_, ?_, fun _ => Or.inr (Or.inr hrefuses.fault_cases),
      Or.inr ⟨header, k, patch, between, hheader, hk, hadmits, hrefuses, hfirst, hover⟩⟩
    · exact iff_of_false (fun hfault => hrefuses.not_atStart (Or.inl hfault))
        (not_not.mpr (magic_of_ofFile? hheader))
    · refine iff_of_false (fun hfault => hrefuses.not_atStart (Or.inr hfault)) ?_
      rintro ⟨header', hheader', hzero⟩
      cases hheader.symm.trans hheader'
      rw [ofAddress?_eq_none_iff.mpr hzero] at hentry
      cases hentry

/-- The file bytes of both segments fit `[0x10, 0x18)`, the zeros of the second do not. -/
def spilling : Draft :=
  { Draft.ofClass .elf64 with
    entry := 0x10
    segments := [⟨loadable, 0x10, none, [1, 2], 2⟩, ⟨loadable, 0x14, none, [3, 4], 6⟩] }

/-- The zeros from `0x16` on are refused, after the bytes of both segments were copied. -/
theorem load_failures_spilling :
    Memory.mapping ⟨.window, ⟨0x10, List.replicate 8 0xAA⟩⟩ = .window ∧
      ∃ after, inFlatMode.load (.file spilling.layOut)
          (.ofMemory ⟨.window, ⟨0x10, List.replicate 8 0xAA⟩⟩) =
            .error (.memory ⟨0x16, 4⟩) after ∧
        after.memory.ram.bytes = [1, 2, 0xAA, 0xAA, 3, 4, 0xAA, 0xAA] ∧
        ∃ (header : Header) (k : Nat) (patch : Nat → Option UInt8) (between : Memory),
          k < header.entryCount.toNat ∧
          header.table.Refuses .bits32 spilling.layOut ⟨0x10, List.replicate 8 0xAA⟩ k
            (.memory ⟨0x16, 4⟩) patch ∧
          Overwritten between patch after.memory := by
  have hanswer : (inFlatMode.load (.file spilling.layOut)).answer
      (.ofMemory ⟨.window, ⟨0x10, List.replicate 8 0xAA⟩⟩) = .error (.memory ⟨0x16, 4⟩) := by
    decide +kernel
  have hbytes : ((inFlatMode.load (.file spilling.layOut)).memoryAfter
      (.ofMemory ⟨.window, ⟨0x10, List.replicate 8 0xAA⟩⟩)).ram.bytes =
        [1, 2, 0xAA, 0xAA, 3, 4, 0xAA, 0xAA] := by
    decide +kernel
  obtain ⟨after, hload⟩ := error_of_answer hanswer
  rw [memoryAfter_of_error hload] at hbytes
  obtain ⟨-, -, -, ⟨hrejects, -⟩ | ⟨header, k, patch, between, -, hk, -, hrefuses, -, hover⟩⟩ :=
    (load_failures inFlatMode spilling.layOut rfl).2 _ _ hload
  · cases hrejects with
    | unsound hheader hne hstrict => cases hstrict
  · exact ⟨rfl, after, hload, hbytes, header, k, patch, between, hk, hrefuses, hover⟩

end Loader

end Chainload.Elf
