import Chainload.Elf.Draft
import Chainload.Proofs.Lookalikes
import Chainload.Proofs.Returning
import Chainload.Proofs.ViewedLoad
import Mathlib.Data.List.Basic
import Mathlib.Data.List.Pairwise

/-!
# The order of program headers

Segments are placed in table order, and where two of them share an address the later one decides. If
no two share one, the order does not matter: `load_of_reordering` says that a file is loaded
whenever another one is whose table lists the same program headers in another order, to the same
entry point and with the same memory left. A load that fails may stop elsewhere and leave something
else.

Whether a load returns is a matter of each program header alone (`load_returns_iff`). What it leaves
are the last writes of the table; the writes of segments that are apart commute
(`lastWrite?_perm`).
-/

namespace Chainload.Elf

open Chainload.Action Memory

/-! ## Segments that share no address -/

namespace ProgramHeader

/-- The footprints of two segments share no address. -/
def Apart (width : Width) (ph ph' : ProgramHeader) : Prop :=
  ∀ a, ph.Covers width a → ¬ph'.Covers width a

variable {width : Width} {ph ph' : ProgramHeader}

theorem Apart.symm (h : ph.Apart width ph') : ph'.Apart width ph :=
  fun a hcovers' hcovers => h a hcovers hcovers'

theorem apart_iff :
    ph.Apart width ph' ↔
      ∀ part ∈ [ph.filePart width, ph.zeroPart width],
        ∀ part' ∈ [ph'.filePart width, ph'.zeroPart width], ¬part.Meets part' := by
  simp only [List.forall_mem_cons, List.not_mem_nil, false_implies, implies_true, and_true]
  constructor
  · intro h
    refine ⟨⟨?_, ?_⟩, ?_, ?_⟩ <;> rintro ⟨a, ha, ha'⟩
    · exact h a (Or.inl ha) (Or.inl ha')
    · exact h a (Or.inl ha) (Or.inr ha')
    · exact h a (Or.inr ha) (Or.inl ha')
    · exact h a (Or.inr ha) (Or.inr ha')
  · rintro ⟨⟨hff, hfz⟩, hzf, hzz⟩ a (ha | ha) (ha' | ha')
    · exact hff ⟨a, ha, ha'⟩
    · exact hfz ⟨a, ha, ha'⟩
    · exact hzf ⟨a, ha, ha'⟩
    · exact hzz ⟨a, ha, ha'⟩

instance (width : Width) (ph ph' : ProgramHeader) : Decidable (ph.Apart width ph') :=
  decidable_of_iff _ apart_iff.symm

end ProgramHeader

/-! ## What segments that are apart write -/

section Writes

variable {width : Width} {file file' : Bytes} {table table' : List ProgramHeader}

/-- At no address do two segments that are apart both write. -/
theorem or_written?_comm {ph ph' : ProgramHeader} (h : ph.Apart width ph') (a : Nat)
    (earlier : Option UInt8) :
    (ph'.written? width file a).or ((ph.written? width file a).or earlier) =
      (ph.written? width file a).or ((ph'.written? width file a).or earlier) := by
  by_cases hcovers : ph.Covers width a
  · rw [ProgramHeader.written?_eq_none (h a hcovers), Option.none_or, Option.none_or]
  · rw [ProgramHeader.written?_eq_none hcovers, Option.none_or, Option.none_or]

/-- Tables with the same segments in another order write the same, if the segments are apart. -/
theorem lastWrite?_perm (hperm : table.Perm table')
    (hapart : (table.filter ProgramHeader.isLoadable).Pairwise (ProgramHeader.Apart width))
    (file : Bytes) (a : Nat) : lastWrite? width file table a = lastWrite? width file table' a := by
  have hsymm : Std.Symm (ProgramHeader.Apart width) := ⟨fun _ _ => ProgramHeader.Apart.symm⟩
  refine (hperm.filter _).foldl_eq' (fun ph hmem ph' hmem' earlier => ?_) none
  by_cases hsame : ph = ph'
  · rw [hsame]
  · exact or_written?_comm (hapart.forall hmem hmem' hsame) a earlier

/-- What a segment writes depends on its range of the file alone. -/
theorem written?_of_slice {ph : ProgramHeader}
    (hslice : file.slice ph.offset.toNat ph.fileSize.toNat =
      file'.slice ph.offset.toNat ph.fileSize.toNat) (a : Nat) :
    ph.written? width file a = ph.written? width file' a := by
  unfold ProgramHeader.written?
  split
  · rfl
  split
  case isTrue hfile =>
    have hoffset : a - (ph.filePart width).start < ph.fileSize.toNat :=
      Nat.sub_lt_left_of_lt_add hfile.1 hfile.2
    have hbyte := congrArg (·[a - (ph.filePart width).start]?) hslice
    simpa only [Bytes.getElem?_slice, if_pos hoffset] using hbyte
  case isFalse => rfl

theorem lastWrite?_of_slices
    (hslices : ∀ ph ∈ table, ph.isLoadable = true →
      file.slice ph.offset.toNat ph.fileSize.toNat =
        file'.slice ph.offset.toNat ph.fileSize.toNat) (a : Nat) :
    lastWrite? width file table a = lastWrite? width file' table a := by
  refine List.foldl_ext _ _ _ fun earlier ph hmem => ?_
  obtain ⟨hmem, hload⟩ := List.mem_filter.mp hmem
  rw [written?_of_slice (hslices ph hmem hload)]

end Writes

/-! ## Files whose tables are in another order -/

theorem Header.Alike.symm {validation : Validation} {header header' : Header}
    (h : header.Alike validation header') : header'.Alike validation header where
  entry := h.entry.symm
  entryCount := h.entryCount.symm
  classByte hstrict := (h.classByte hstrict).symm
  dataByte hstrict := (h.dataByte hstrict).symm
  entrySize hstrict := (h.entrySize hstrict).symm

namespace ProgramHeader

variable {width : Width} {file file' : Bytes} {ram : Ram} {ph : ProgramHeader}

theorem Sound.of_length (h : ph.Sound width file) (hsize : file.length = file'.length) :
    ph.Sound width file' where
  sizes := h.sizes
  range := contains_of_length hsize _ _ ▸ h.range
  last := h.last

theorem Fits.of_length (h : ph.Fits width file ram) (hsize : file.length = file'.length) :
    ph.Fits width file' ram where
  bytes hne := hsize ▸ h.bytes hne
  copy := h.copy
  zeros := h.zeros

end ProgramHeader

namespace Loader

variable {loader : Loader} {file file' : Bytes} {machine : Machine}

/-- Two files of one size agree on the header, but for where the table lies; their tables lie inside
and list the same program headers, and the bytes of the segments to be loaded are the same. -/
structure Reordering (loader : Loader) (file file' : Bytes) : Prop where
  size : file.length = file'.length
  magic : file.slice 0 4 = magic ↔ file'.slice 0 4 = magic
  header : Header.Alike loader.validation (.ofStart loader.cls file) (.ofStart loader.cls file')
  inside : (Header.ofStart loader.cls file).table.Inside file
  inside' : (Header.ofStart loader.cls file').table.Inside file'
  entries : ((Header.ofStart loader.cls file).table.entries file).Perm
    ((Header.ofStart loader.cls file').table.entries file')
  bytes : ∀ ph ∈ (Header.ofStart loader.cls file).table.entries file, ph.isLoadable = true →
    file.slice ph.offset.toNat ph.fileSize.toNat = file'.slice ph.offset.toNat ph.fileSize.toNat

/-- A file that is loaded begins with the header that its first bytes spell, and its load leaves the
last writes of the table that this header names. -/
theorem ofStart_of_load {entry : Entry} {after : Machine}
    (hwindow : machine.memory.mapping = .window)
    (h : loader.load (.file file) machine = .ok entry after) :
    Header.ofFile? loader.cls file = some (.ofStart loader.cls file) ∧
      Overwritten machine.memory
        (lastWrite? loader.width file ((Header.ofStart loader.cls file).table.entries file))
        after.memory := by
  obtain ⟨header, hheader, -, -, -, hover⟩ := overwritten_of_load hwindow h
  obtain rfl : Header.ofStart loader.cls file = header := by
    unfold Header.ofFile? at hheader
    split at hheader
    case isTrue => exact Option.some.inj hheader
    case isFalse => cases hheader
  exact ⟨hheader, hover⟩

namespace Reordering

theorem symm (h : loader.Reordering file file') : loader.Reordering file' file where
  size := h.size.symm
  magic := h.magic.symm
  header := h.header.symm
  inside := h.inside'
  inside' := h.inside
  entries := h.entries.symm
  bytes ph hmem hload := (h.bytes ph (h.entries.mem_iff.mpr hmem) hload).symm

variable (h : loader.Reordering file file')
include h

/-- If one file begins with a header, so does the other. -/
theorem ofFile? (hheader : Header.ofFile? loader.cls file = some (.ofStart loader.cls file)) :
    Header.ofFile? loader.cls file' = some (.ofStart loader.cls file') := by
  unfold Header.ofFile? at hheader ⊢
  split at hheader
  case isTrue hstart => exact if_pos ⟨h.magic.mp hstart.1, h.size ▸ hstart.2⟩
  case isFalse => cases hheader

theorem checkIdent (hstrict : loader.validation.isStrict = true) :
    (Header.ofStart loader.cls file).checkIdent = (Header.ofStart loader.cls file').checkIdent := by
  simp only [Header.checkIdent, Header.cls_ofStart, h.header.classByte hstrict,
    h.header.dataByte hstrict, h.header.entrySize hstrict]

/-- Whether a load returns, and where, does not depend on the order of the table. -/
theorem answer_load (hwindow : machine.memory.mapping = .window) {entry : Entry}
    (hanswer : (loader.load (.file file)).answer machine = .ok entry) :
    (loader.load (.file file')).answer machine = .ok entry := by
  obtain ⟨after, hload⟩ := ok_of_answer hanswer
  obtain ⟨hheader, -⟩ := ofStart_of_load hwindow hload
  obtain ⟨hentry, hident, hsegments⟩ := (load_returns_iff hwindow hheader h.inside).mp hanswer
  refine (load_returns_iff hwindow (h.ofFile? hheader) h.inside').mpr ⟨?_, ?_, ?_⟩
  · rwa [← h.header.entry]
  · intro hstrict
    rw [← h.checkIdent hstrict, ← h.header.entry]
    exact hident hstrict
  · intro ph hmem hload
    obtain ⟨hsound, hfits⟩ := hsegments ph (h.entries.mem_iff.mpr hmem) hload
    exact ⟨fun hstrict => (hsound hstrict).of_length h.size, hfits.of_length h.size⟩

end Reordering

/-- Two files that differ in the order of their tables are loaded alike if no two of their segments
share an address: the load of one returns exactly if that of the other does, and then both return
the same entry point and leave the same memory. -/
theorem load_of_reordering (h : loader.Reordering file file')
    (hapart : (segments loader.cls file).Pairwise (ProgramHeader.Apart loader.width))
    (hwindow : machine.memory.mapping = .window) :
    ((∃ entry after, loader.load (.file file) machine = .ok entry after) ↔
      ∃ entry after, loader.load (.file file') machine = .ok entry after) ∧
    ∀ entry after entry' after', loader.load (.file file) machine = .ok entry after →
      loader.load (.file file') machine = .ok entry' after' →
        entry = entry' ∧ after.memory = after'.memory := by
  refine ⟨⟨?_, ?_⟩, fun entry after entry' after' hload hload' => ⟨?_, ?_⟩⟩
  · rintro ⟨entry, after, hload⟩
    exact ⟨entry, ok_of_answer (h.answer_load hwindow (answer_of_ok hload))⟩
  · rintro ⟨entry, after, hload⟩
    exact ⟨entry, ok_of_answer (h.symm.answer_load hwindow (answer_of_ok hload))⟩
  · have hanswer := h.answer_load hwindow (answer_of_ok hload)
    exact Except.ok.inj (hanswer.symm.trans (answer_of_ok hload'))
  · obtain ⟨hheader, hover⟩ := ofStart_of_load hwindow hload
    obtain ⟨-, hover'⟩ := ofStart_of_load hwindow hload'
    rw [segments_of_header hheader] at hapart
    refine hover.unique (hover'.congr fun a => ?_)
    rw [lastWrite?_of_slices h.bytes, lastWrite?_perm h.entries hapart]

/-- Two segments to be loaded, the second above the reach of 32-bit pointers, and a note between
them. -/
def ascending : Draft :=
  { Draft.ofClass .elf64 with
    entry := 0x10
    segments := [⟨loadable, 0x10, some 0x100, [1, 2, 3, 4], 6⟩, ⟨4, 0, some 0x104, [5], 1⟩,
      ⟨loadable, 0x1_0000_0016, some 0x105, [9], 2⟩] }

/-- The same with the table in reverse order and eight bytes further on. -/
def descending : Draft :=
  { ascending with
    tableOffset := some 0x48
    segments := ascending.segments.reverse }

/-- Cut down to 32 bits, the segments lie side by side. -/
theorem load_of_reordering_descending :
    inFlatMode.Reordering ascending.layOut descending.layOut ∧
      (segments .elf64 ascending.layOut).Pairwise (ProgramHeader.Apart .bits32) ∧
      Memory.mapping ⟨.window, ⟨0x10, List.replicate 8 0xAA⟩⟩ = .window ∧
      ∃ entry after after',
        inFlatMode.load (.file ascending.layOut)
            (.ofMemory ⟨.window, ⟨0x10, List.replicate 8 0xAA⟩⟩) = .ok entry after ∧
          inFlatMode.load (.file descending.layOut)
            (.ofMemory ⟨.window, ⟨0x10, List.replicate 8 0xAA⟩⟩) = .ok entry after' ∧
          after.memory = after'.memory := by
  have hreordering : inFlatMode.Reordering ascending.layOut descending.layOut :=
    { size := by decide +kernel
      magic := by decide +kernel
      header :=
        { entry := by decide +kernel
          entryCount := by decide +kernel
          classByte := (nomatch ·)
          dataByte := (nomatch ·)
          entrySize := (nomatch ·) }
      inside := by decide +kernel
      inside' := by decide +kernel
      entries := by decide +kernel
      bytes := by decide +kernel }
  have hapart : (segments .elf64 ascending.layOut).Pairwise (ProgramHeader.Apart .bits32) := by
    decide +kernel
  have hanswer : (inFlatMode.load (.file ascending.layOut)).answer
      (.ofMemory ⟨.window, ⟨0x10, List.replicate 8 0xAA⟩⟩) = .ok ⟨0x10, by decide⟩ := by
    decide +kernel
  obtain ⟨after, hload⟩ := ok_of_answer hanswer
  have hwindow : (Machine.ofMemory ⟨.window, ⟨0x10, List.replicate 8 0xAA⟩⟩).memory.mapping =
      .window := rfl
  obtain ⟨hreturns, halike⟩ := load_of_reordering hreordering hapart hwindow
  obtain ⟨entry', after', hload'⟩ := hreturns.mp ⟨_, after, hload⟩
  obtain ⟨rfl, hmemory⟩ := halike _ after entry' after' hload hload'
  exact ⟨hreordering, hapart, rfl, _, after, after', hload, hload', hmemory⟩

end Loader

end Chainload.Elf
