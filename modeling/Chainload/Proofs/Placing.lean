import Chainload.Proofs.Inspection

/-!
# Placing segments

What one segment does to memory behind a window, and why placing a table fails.

A segment is placed in two accesses, the store of its file bytes and the clear of the rest. If both
are granted, memory is overwritten with the segment's bytes (`Loader.placeSegment_ok`); whatever
happens, no byte outside the footprint changes (`Loader.placeSegment_keeps`).

Over a table, `checkEntries_of_placeEntries` ties placing to the checks of a strict loader: it fails
for another reason than memory only if the checks, made on the memory that is left, fail too.

The image is any that shows a file, so the lemmas hold for a file of its own and, as long as the
range is left alone, for a view.
-/

namespace Chainload.Elf

open Chainload.Action Memory

/-! ## The bytes of a segment -/

namespace ProgramHeader

/-- The byte of the file that a segment copies to an address. -/
def copied? (width : Width) (file : Bytes) (ph : ProgramHeader) (a : Nat) : Option UInt8 :=
  if (ph.filePart width).Holds a then file[ph.offset.toNat + (a - (ph.filePart width).start)]?
  else none

/-- The zero that a segment writes at an address. -/
def zeroed? (width : Width) (ph : ProgramHeader) (a : Nat) : Option UInt8 :=
  if (ph.zeroPart width).Holds a then some 0 else none

theorem written?_eq (width : Width) (file : Bytes) (ph : ProgramHeader) (a : Nat) :
    ph.written? width file a = (ph.zeroed? width a).or (ph.copied? width file a) := by
  unfold written? zeroed? copied?
  split <;> simp

/-- A segment writes nothing outside its footprint. -/
theorem written?_eq_none {width : Width} {file : Bytes} {ph : ProgramHeader} {a : Nat}
    (h : ¬ph.Covers width a) : ph.written? width file a = none := by
  unfold written?
  rw [if_neg (mt Or.inr h), if_neg (mt Or.inl h)]

end ProgramHeader

/-- The file holds every byte that the segment copies. -/
def HoldsSegment (file : Bytes) (ph : ProgramHeader) : Prop :=
  ph.fileSize ≠ 0 → ph.offset.toNat + ph.fileSize.toNat ≤ file.length

namespace Loader

variable {loader : Loader} {image : Image} {file : Bytes} {table : Table} {ph : ProgramHeader}
  {target : UInt64} {index left : Nat} {machine after : Machine} {fault : Fault}

/-! ## The two accesses of a segment -/

theorem request_eq_ok_iff {access : Request} :
    request access machine = .ok () after ↔
      ∃ memory, machine.memory.perform access = .ok memory ∧
        { machine with memory := memory, requests := machine.requests ++ [access] } = after := by
  unfold request
  cases h : machine.memory.perform access with
  | ok memory =>
    rw [mapError_of_ok (request_of_ok h)]
    simp
  | error range =>
    rw [mapError_of_error (request_of_error h)]
    simp

/-- A request fails only if memory refuses it, and then memory stays as it was. -/
theorem request_eq_error {access : Request} (h : request access machine = .error fault after) :
    ∃ range, fault = .memory range ∧ machine.memory.perform access = .error range ∧
      after.memory = machine.memory := by
  unfold request at h
  cases hperform : machine.memory.perform access with
  | ok memory =>
    rw [mapError_of_ok (request_of_ok hperform)] at h
    cases h
  | error range =>
    rw [mapError_of_error (request_of_error hperform)] at h
    cases h
    exact ⟨range, rfl, rfl, rfl⟩

theorem copyFile_of_empty (h : ph.fileSize = 0) :
    copyFile image target ph machine = .ok () machine := by
  simp only [copyFile, h, ne_eq, not_true_eq_false, if_false]
  rfl

theorem copyFile_of_unread (hne : ph.fileSize ≠ 0)
    (h : readRange image machine.memory.ram ph.offset ph.fileSize = .error fault) :
    copyFile image target ph machine = .error fault machine := by
  rw [copyFile, if_pos hne, bind_of_ok (ram_apply machine), h,
    bind_of_error (ofExcept_apply (.error fault) machine)]

theorem copyFile_of_read {bytes : Bytes} (hne : ph.fileSize ≠ 0)
    (h : readRange image machine.memory.ram ph.offset ph.fileSize = .ok bytes) :
    copyFile image target ph machine = request (.store target bytes) machine := by
  rw [copyFile, if_pos hne, bind_of_ok (ram_apply machine), h,
    bind_of_ok (ofExcept_apply (.ok bytes) machine)]

theorem zeroRest_of_none (h : ph.zeroFill = 0) :
    loader.zeroRest index target ph machine = .ok () machine := by
  simp only [zeroRest, h, ne_eq, not_true_eq_false, if_false]
  rfl

theorem zeroRest_of_some (loader : Loader) (index : Nat) (target : UInt64) (machine : Machine)
    (hne : ph.zeroFill ≠ 0) :
    ∃ records, loader.zeroRest index target ph machine =
      request (.clear (loader.zeroStart target ph) ph.zeroFill) { machine with records } := by
  rw [zeroRest, if_pos hne]
  exact ⟨_, bind_of_ok (log_apply _ _ _ machine)⟩

/-! ## Where a segment goes -/

theorem target_eq_ok (h : loader.target ph.physicalAddress = .ok target) :
    target.toNat = (ph.filePart loader.width).start ∧
      loader.zeroStart target ph =
        loader.width.truncate (loader.width.truncate ph.physicalAddress + ph.fileSize) := by
  unfold Loader.target at h
  split at h
  case isTrue hreaches =>
    cases h
    rw [ProgramHeader.filePart, zeroStart, Width.truncate_of_reaches hreaches]
    exact ⟨rfl, rfl⟩
  case isFalse =>
    split at h
    · cases h
    · cases h
      exact ⟨rfl, rfl⟩

theorem target_eq_error (h : loader.target ph.physicalAddress = .error fault) :
    loader.width.reaches ph.physicalAddress = false := by
  unfold Loader.target at h
  split at h
  case isTrue => cases h
  case isFalse hreaches => exact Bool.not_eq_true _ ▸ hreaches

theorem placeSegment_of_target (image : Image) (index : Nat) (machine : Machine)
    (h : loader.target ph.physicalAddress = .ok target) :
    ∃ records, loader.placeSegment image index ph machine =
      (copyFile image target ph >>= fun _ => loader.zeroRest index target ph)
        { machine with records } := by
  rw [placeSegment, h, bind_of_ok (ofExcept_apply (.ok target) machine)]
  exact ⟨_, bind_of_ok (log_apply _ _ _ machine)⟩

theorem placeSegment_of_no_target (h : loader.target ph.physicalAddress = .error fault) :
    loader.placeSegment image index ph machine = .error fault machine := by
  rw [placeSegment, h, bind_of_error (ofExcept_apply (.error fault) machine)]

section Window

variable (hwindow : machine.memory.mapping = .window)
include hwindow

/-- A copy that is granted leaves the bytes of the file, and the file holds them all. -/
theorem copyFile_ok (hshows : image.Shows machine.memory.ram file)
    (htarget : target.toNat = (ph.filePart loader.width).start)
    (h : copyFile image target ph machine = .ok () after) :
    Overwritten machine.memory (ph.copied? loader.width file) after.memory ∧
      HoldsSegment file ph := by
  by_cases hempty : ph.fileSize = 0
  · rw [copyFile_of_empty hempty] at h
    cases h
    refine ⟨(Overwritten.refl _).congr fun a => ?_, fun hne => absurd hempty hne⟩
    have hlen : (ph.filePart loader.width).len = 0 := by
      rw [ProgramHeader.filePart, hempty]
      rfl
    rw [ProgramHeader.copied?, if_neg (Span.not_holds_of_empty hlen a)]
  cases hread : readRange image machine.memory.ram ph.offset ph.fileSize with
  | error fault =>
    rw [copyFile_of_unread hempty hread] at h
    cases h
  | ok bytes =>
    rw [copyFile_of_read hempty hread] at h
    obtain ⟨memory, hperform, rfl⟩ := request_eq_ok_iff.mp h
    rw [readRange_of_shows hshows] at hread
    split at hread
    case isFalse => cases hread
    case isTrue hinside =>
      cases hread
      rw [perform_store hwindow] at hperform
      split at hperform
      case isFalse => cases hperform
      case isTrue hcovers =>
        cases hperform
        refine ⟨(Overwritten.write hcovers).congr fun a => ?_, fun _ => hinside⟩
        rw [Bytes.at?_slice, htarget]
        rfl

theorem zeroRest_ok
    (hstart : loader.zeroStart target ph =
      loader.width.truncate (loader.width.truncate ph.physicalAddress + ph.fileSize))
    (h : loader.zeroRest index target ph machine = .ok () after) :
    Overwritten machine.memory (ph.zeroed? loader.width) after.memory := by
  by_cases hnone : ph.zeroFill = 0
  · rw [zeroRest_of_none hnone] at h
    cases h
    refine (Overwritten.refl _).congr fun a => ?_
    have hlen : (ph.zeroPart loader.width).len = 0 := by
      rw [ProgramHeader.zeroPart, ← ph.toNat_zeroFill, hnone]
      rfl
    rw [ProgramHeader.zeroed?, if_neg (Span.not_holds_of_empty hlen a)]
  · obtain ⟨records, heq⟩ := zeroRest_of_some loader index target machine hnone
    rw [heq] at h
    obtain ⟨memory, hperform, rfl⟩ := request_eq_ok_iff.mp h
    rw [perform_clear hwindow] at hperform
    split at hperform
    case isFalse => cases hperform
    case isTrue hcovers =>
      cases hperform
      have hlen : (Bytes.zeros ph.zeroFill.toNat).length = ph.zeroFill.toNat :=
        Bytes.length_zeros _
      refine (Overwritten.write (by rw [hlen]; exact hcovers)).congr fun a => ?_
      rw [Bytes.at?_zeros, hstart, ph.toNat_zeroFill]
      rfl

end Window

/-! ## One segment -/

theorem copyFile_eq_error (h : copyFile image target ph machine = .error fault after) :
    after.memory = machine.memory ∧
      ((∃ range, fault = .memory range) ∨ image.contains ph.offset ph.fileSize = false) := by
  by_cases hempty : ph.fileSize = 0
  · rw [copyFile_of_empty hempty] at h
    cases h
  cases hread : readRange image machine.memory.ram ph.offset ph.fileSize with
  | error fault' =>
    rw [copyFile_of_unread hempty hread] at h
    cases h
    refine ⟨rfl, Or.inr ?_⟩
    unfold readRange Image.read at hread
    cases hcontains : image.contains ph.offset ph.fileSize with
    | false => rfl
    | true =>
      rw [hcontains] at hread
      cases hread
  | ok bytes =>
    rw [copyFile_of_read hempty hread] at h
    obtain ⟨range, hfault, -, hmemory⟩ := request_eq_error h
    exact ⟨hmemory, Or.inl ⟨range, hfault⟩⟩

theorem zeroRest_eq_error (h : loader.zeroRest index target ph machine = .error fault after) :
    after.memory = machine.memory ∧ ∃ range, fault = .memory range := by
  by_cases hnone : ph.zeroFill = 0
  · rw [zeroRest_of_none hnone] at h
    cases h
  · obtain ⟨records, heq⟩ := zeroRest_of_some loader index target machine hnone
    rw [heq] at h
    obtain ⟨range, hfault, -, hmemory⟩ := request_eq_error h
    exact ⟨hmemory, range, hfault⟩

section Window

variable (hwindow : machine.memory.mapping = .window)
include hwindow

/-- A segment that was placed left its bytes, the zeros over those of the file. -/
theorem placeSegment_ok (hshows : image.Shows machine.memory.ram file)
    (h : loader.placeSegment image index ph machine = .ok () after) :
    Overwritten machine.memory (ph.written? loader.width file) after.memory ∧
      HoldsSegment file ph := by
  cases htarget : loader.target ph.physicalAddress with
  | error fault =>
    rw [placeSegment_of_no_target htarget] at h
    cases h
  | ok target =>
    obtain ⟨hfile, hzero⟩ := target_eq_ok htarget
    obtain ⟨records, heq⟩ := placeSegment_of_target image index machine htarget
    rw [heq] at h
    obtain ⟨⟨⟩, between, hcopy, hclear⟩ := bind_eq_ok_iff.mp h
    have hnoted : ({ machine with records } : Machine).memory.mapping = .window := hwindow
    obtain ⟨hcopied, hholds⟩ := copyFile_ok hnoted hshows hfile hcopy
    have hzeroed := zeroRest_ok (hcopied.window hwindow) hzero hclear
    refine ⟨(hcopied.trans hzeroed).congr fun a => ?_, hholds⟩
    rw [ProgramHeader.written?_eq]

/-- Placing a segment leaves every byte outside its footprint alone, also if it fails. -/
theorem placeSegment_keeps :
    KeepsOutside (ph.Covers loader.width) machine.memory
      ((loader.placeSegment image index ph).memoryAfter machine) := by
  obtain ⟨file, hshows⟩ := image.exists_shows machine.memory.ram
  cases h : loader.placeSegment image index ph machine with
  | ok _ after =>
    rw [memoryAfter_of_ok h]
    exact (placeSegment_ok hwindow hshows h).1.keepsOutside fun a ha =>
      ProgramHeader.written?_eq_none ha
  | error fault after =>
    rw [memoryAfter_of_error h]
    cases htarget : loader.target ph.physicalAddress with
    | error fault' =>
      rw [placeSegment_of_no_target htarget] at h
      cases h
      exact .refl _ _
    | ok target =>
      obtain ⟨hfile, -⟩ := target_eq_ok htarget
      obtain ⟨records, heq⟩ := placeSegment_of_target image index machine htarget
      rw [heq] at h
      rcases bind_eq_error_iff.mp h with hcopy | ⟨⟨⟩, between, hcopy, hclear⟩
      · exact .of_eq (copyFile_eq_error hcopy).1
      · -- The copy was granted and the clear refused, so the bytes of the file stay.
        have hnoted : ({ machine with records } : Machine).memory.mapping = .window := hwindow
        rw [(zeroRest_eq_error hclear).1]
        refine (copyFile_ok hnoted hshows hfile hcopy).1.keepsOutside fun a ha => ?_
        rw [ProgramHeader.copied?, if_neg (mt Or.inl ha)]

end Window

/-- A segment fails for another reason than memory only if its check fails, and before it wrote
anything. -/
theorem placeSegment_eq_error
    (h : loader.placeSegment image index ph machine = .error fault after) :
    (∃ range, fault = .memory range) ∨
      after.memory = machine.memory ∧ loader.checkSegment image index ph ≠ .ok () := by
  cases htarget : loader.target ph.physicalAddress with
  | error fault' =>
    rw [placeSegment_of_no_target htarget] at h
    cases h
    refine Or.inr ⟨rfl, fun hcheck => ?_⟩
    exact absurd (reaches_of_checkSegment hcheck) (by rw [target_eq_error htarget]; decide)
  | ok target =>
    obtain ⟨records, heq⟩ := placeSegment_of_target image index machine htarget
    rw [heq] at h
    rcases bind_eq_error_iff.mp h with hcopy | ⟨⟨⟩, between, hcopy, hclear⟩
    · obtain ⟨hmemory, hrange | hcontains⟩ := copyFile_eq_error hcopy
      · exact Or.inl hrange
      · refine Or.inr ⟨hmemory, fun hcheck => ?_⟩
        rw [(checkSegment_eq_ok_iff.mp hcheck).2.1] at hcontains
        cases hcontains
    · exact Or.inl (zeroRest_eq_error hclear).2

/-! ## A whole table -/

theorem placeEntry_of_loadable (h : ph.isLoadable = true) :
    loader.placeEntry image index ph = loader.placeSegment image index ph := by
  rw [placeEntry, if_pos h]

theorem placeEntry_of_skipped (loader : Loader) (image : Image) (index : Nat) (machine : Machine)
    (h : ph.isLoadable = false) :
    ∃ records, loader.placeEntry image index ph machine = .ok () { machine with records } := by
  rw [placeEntry, h]
  exact ⟨_, log_apply _ _ _ machine⟩

/-- Dealing with a program header leaves every byte alone that is not in the footprint of a segment
to be loaded. -/
theorem placeEntry_keeps (loader : Loader) (image : Image) (index : Nat) (ph : ProgramHeader)
    (hwindow : machine.memory.mapping = .window) :
    KeepsOutside (fun a => ph.isLoadable = true ∧ ph.Covers loader.width a) machine.memory
      ((loader.placeEntry image index ph).memoryAfter machine) := by
  cases hload : ph.isLoadable with
  | false =>
    obtain ⟨records, heq⟩ := placeEntry_of_skipped loader image index machine hload
    rw [memoryAfter_of_ok heq]
    exact .refl _ _
  | true =>
    rw [placeEntry_of_loadable hload]
    exact (placeSegment_keeps hwindow).mono fun a ha => ⟨rfl, ha⟩

theorem placeEntries_of_unread (h : table.read image machine.memory.ram index = .error fault) :
    loader.placeEntries image table (left + 1) index machine = .error fault machine := by
  rw [placeEntries, bind_of_ok (ram_apply machine), h,
    bind_of_error (ofExcept_apply (.error fault) machine)]

theorem placeEntries_of_read (h : table.read image machine.memory.ram index = .ok ph) :
    loader.placeEntries image table (left + 1) index machine =
      (loader.placeEntry image index ph >>= fun _ =>
        loader.placeEntries image table left (index + 1)) machine := by
  rw [placeEntries, bind_of_ok (ram_apply machine), h,
    bind_of_ok (ofExcept_apply (.ok ph) machine)]

/-- A table that was placed to its end was read to its end, entry by entry. -/
theorem placeEntries_succ_eq_ok
    (h : loader.placeEntries image table (left + 1) index machine = .ok () after) :
    ∃ ph between, table.read image machine.memory.ram index = .ok ph ∧
      loader.placeEntry image index ph machine = .ok () between ∧
      loader.placeEntries image table left (index + 1) between = .ok () after := by
  cases hread : table.read image machine.memory.ram index with
  | error fault =>
    rw [placeEntries_of_unread hread] at h
    cases h
  | ok ph =>
    rw [placeEntries_of_read hread] at h
    obtain ⟨⟨⟩, between, hentry, hrest⟩ := bind_eq_ok_iff.mp h
    exact ⟨ph, between, rfl, hentry, hrest⟩

/-- If placing a table fails for another reason than memory, then the checks of the table fail on
the memory that is left. -/
theorem checkEntries_of_placeEntries :
    ∀ {left index : Nat} {machine : Machine},
      loader.placeEntries image table left index machine = .error fault after →
      (∃ range, fault = .memory range) ∨
        loader.checkEntries image after.memory.ram table left index ≠ .ok ()
  | 0, index, machine, h => by cases h
  | left + 1, index, machine, h => by
    cases hread : table.read image machine.memory.ram index with
    | error fault' =>
      rw [placeEntries_of_unread hread] at h
      cases h
      refine Or.inr fun hcheck => ?_
      obtain ⟨ph, hread', -, -⟩ := checkEntries_succ_eq_ok_iff.mp hcheck
      rw [hread] at hread'
      cases hread'
    | ok ph =>
      rw [placeEntries_of_read hread] at h
      rcases bind_eq_error_iff.mp h with hentry | ⟨⟨⟩, between, -, hrest⟩
      · cases hload : ph.isLoadable with
        | false =>
          obtain ⟨records, heq⟩ := placeEntry_of_skipped loader image index machine hload
          rw [heq] at hentry
          cases hentry
        | true =>
          rw [placeEntry_of_loadable hload] at hentry
          rcases placeSegment_eq_error hentry with hrange | ⟨hmemory, hcheck⟩
          · exact Or.inl hrange
          · -- Nothing was written since the entry was read, so the same entry is read again.
            refine Or.inr fun hchecks => ?_
            obtain ⟨ph', hread', hsegment, -⟩ := checkEntries_succ_eq_ok_iff.mp hchecks
            rw [hmemory, hread] at hread'
            cases hread'
            exact hcheck (hsegment hload)
      · rcases checkEntries_of_placeEntries hrest with hrange | hcheck
        · exact Or.inl hrange
        · refine Or.inr fun hchecks => ?_
          obtain ⟨-, -, -, hrest'⟩ := checkEntries_succ_eq_ok_iff.mp hchecks
          exact hcheck hrest'

/-- Placing a table of a file writes inside the footprints of its loadable segments only, also if it
fails. -/
theorem placeEntries_keeps (loader : Loader) (file : Bytes) (table : Table) :
    ∀ (left index : Nat) {machine : Machine}, machine.memory.mapping = .window →
      KeepsOutside
        (fun a => ∃ ph ∈ table.entriesFrom file left index,
          ph.isLoadable = true ∧ ph.Covers loader.width a)
        machine.memory ((loader.placeEntries (.file file) table left index).memoryAfter machine)
  | 0, _, _, _ => .refl _ _
  | left + 1, index, machine, hwindow => by
    have hshows := Image.shows_file file machine.memory.ram
    rcases hread : table.read (.file file) machine.memory.ram index with fault | ph
    · rw [memoryAfter_of_error (placeEntries_of_unread hread)]
      exact .refl _ _
    have hentry := placeEntry_keeps loader (.file file) index ph hwindow
    rw [Table.entriesFrom_succ ((Table.read_eq_ok_iff hshows).mp hread),
      memoryAfter_congr (placeEntries_of_read hread)]
    rcases hrun : loader.placeEntry (.file file) index ph machine with
      ⟨_, between⟩ | ⟨fault, between⟩
    · rw [memoryAfter_of_ok hrun] at hentry
      rw [memoryAfter_congr (bind_of_ok hrun)]
      have hrest := placeEntries_keeps loader file table left (index + 1) (hentry.window hwindow)
      refine (hentry.mono fun a ha => ⟨ph, List.mem_cons_self .., ha⟩).trans (hrest.mono ?_)
      rintro a ⟨ph', hmem, ha⟩
      exact ⟨ph', List.mem_cons_of_mem ph hmem, ha⟩
    · rw [memoryAfter_of_error hrun] at hentry
      rw [memoryAfter_of_error (bind_of_error hrun)]
      exact hentry.mono fun a ha => ⟨ph, List.mem_cons_self .., ha⟩

end Loader

end Chainload.Elf
