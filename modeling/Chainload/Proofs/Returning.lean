import Chainload.Proofs.FailedLoads
import Chainload.Proofs.Requirements

/-!
# When the load of a file returns

A load deals with one program header after the other, and the machine that it goes on with is the
one that the last segment left. Whether it gets to the end still depends on each program header
alone: the file and the window have to hold the segment (`ProgramHeader.Fits`), and a strict loader
has to find it sound (`ProgramHeader.Sound`). If the whole table lies in the file, no program header
is missed, and `load_returns_iff` needs no more of the table than its program headers, in any order.
-/

namespace Chainload.Elf

open Chainload.Action Memory

/-! ## Tables inside a file -/

namespace Table

variable {table : Table} {file : Bytes} {index : Nat}

/-- The file holds the whole table. -/
def Inside (table : Table) (file : Bytes) : Prop :=
  table.offset.toNat + table.count.toNat * table.cls.stride.toNat ≤ file.length

instance (table : Table) (file : Bytes) : Decidable (table.Inside file) :=
  inferInstanceAs (Decidable (_ ≤ _))

/-- An offset that is cut down to 64 bits does not grow. -/
theorem toNat_offsetOf_le (table : Table) (index : Nat) :
    (table.offsetOf index).toNat ≤ table.offset.toNat + index * table.cls.stride.toNat := by
  rw [table.toNat_offsetOf_eq_mod index]
  exact Nat.mod_le _ _

theorem Inside.exists_entry? (h : table.Inside file) (hindex : index < table.count.toNat) :
    ∃ ph, table.entry? file index = some ph := by
  have hle := table.toNat_offsetOf_le index
  have hnext : (index + 1) * table.cls.stride.toNat ≤
      table.count.toNat * table.cls.stride.toNat := Nat.mul_le_mul_right _ hindex
  rw [Nat.succ_mul] at hnext
  unfold Inside at h
  exact ⟨_, if_pos (by omega)⟩

theorem mem_entries_iff {ph : ProgramHeader} :
    ph ∈ table.entries file ↔ ∃ index < table.count.toNat, table.entry? file index = some ph := by
  simp [entries, entriesFrom]

/-- A table inside a file has something at all indices if its program headers have. -/
theorem Inside.forall_iff (h : table.Inside file) (P : ProgramHeader → Prop) :
    (∀ index < table.count.toNat, ∃ ph, table.entry? file index = some ph ∧ P ph) ↔
      ∀ ph ∈ table.entries file, P ph := by
  constructor
  · intro hall ph hmem
    obtain ⟨index, hindex, hentry⟩ := mem_entries_iff.mp hmem
    obtain ⟨ph', hentry', hP⟩ := hall index hindex
    cases hentry.symm.trans hentry'
    exact hP
  · intro hall index hindex
    obtain ⟨ph, hentry⟩ := h.exists_entry? hindex
    exact ⟨ph, hentry, hall ph (mem_entries_iff.mpr ⟨index, hindex, hentry⟩)⟩

end Table

theorem Header.inside_iff {header : Header} {file : Bytes} :
    header.table.Inside file ↔
      (Image.file file).contains header.tableOffset header.tableSize = true := by
  rw [Image.contains_iff, header.toNat_tableSize]
  exact Iff.rfl

/-! ## What a strict loader checks -/

/-- What a strict loader requires of a segment: it is no smaller in memory than in the file, the
file holds its range, and pointers reach its last address. -/
structure ProgramHeader.Sound (width : Width) (file : Bytes) (ph : ProgramHeader) : Prop where
  sizes : ph.fileSize ≤ ph.memorySize
  range : (Image.file file).contains ph.offset ph.fileSize = true
  last : ∃ last, ph.lastAddress? = some last ∧ width.reaches last = true

namespace Loader

variable {loader : Loader} {file : Bytes} {table : Table} {header : Header} {entry : Entry}
  {ram : Ram}

theorem checkSegment_eq_ok_iff_sound {index : Nat} {ph : ProgramHeader} :
    loader.checkSegment (.file file) index ph = .ok () ↔ ph.Sound loader.width file := by
  rw [checkSegment_eq_ok_iff]
  exact ⟨fun ⟨hsizes, hrange, hlast⟩ => ⟨hsizes, hrange, hlast⟩,
    fun h => ⟨h.sizes, h.range, h.last⟩⟩

/-- A table passes if the file holds all its program headers and all segments to be loaded are
sound. -/
theorem checkEntries_eq_ok_iff :
    ∀ {left index : Nat}, loader.checkEntries (.file file) ram table left index = .ok () ↔
      ∀ i < left, ∃ ph, table.entry? file (index + i) = some ph ∧
        (ph.isLoadable = true → ph.Sound loader.width file)
  | 0, _ => iff_of_true rfl fun i hi => absurd hi (Nat.not_lt_zero i)
  | left + 1, index => by
    rw [checkEntries_succ_eq_ok_iff, Nat.forall_lt_succ_left, checkEntries_eq_ok_iff]
    simp only [Table.read_eq_ok_iff (Image.shows_file file ram), checkSegment_eq_ok_iff_sound,
      Nat.add_zero, Nat.add_assoc, Nat.add_comm 1]
    constructor
    · rintro ⟨ph, hentry, hsound, hrest⟩
      exact ⟨⟨ph, hentry, hsound⟩, hrest⟩
    · rintro ⟨⟨ph, hentry, hsound⟩, hrest⟩
      exact ⟨ph, hentry, hsound, hrest⟩

theorem vet_eq_ok_iff :
    loader.vet (.file file) ram header = .ok () ↔
      header.checkIdent = .ok () ∧ loader.width.reaches header.entry = true ∧
        header.table.Inside file ∧
        loader.checkEntries (.file file) ram header.table header.entryCount.toNat 0 = .ok () := by
  rw [Header.inside_iff, vet]
  cases header.checkIdent with
  | error fault => simp [bind, Except.bind]
  | ok _ =>
    cases loader.width.reaches header.entry with
    | false => simp [bind, Except.bind, throw, throwThe, MonadExceptOf.throw]
    | true =>
      cases (Image.file file).contains header.tableOffset header.tableSize with
      | false => simp [bind, Except.bind, throw, throwThe, MonadExceptOf.throw]
      | true => simp [bind, Except.bind]

/-! ## Placing and loading -/

/-- A trusting loader places a table to its end exactly if it can deal with every program header. -/
theorem exists_placeEntries_iff (hvalidation : loader.validation = .trusted) {machine : Machine}
    (hwindow : machine.memory.mapping = .window) (left index : Nat) :
    (∃ after, loader.placeEntries (.file file) table left index machine = .ok () after) ↔
      ∀ i < left, table.Admits loader.width file machine.memory.ram (index + i) := by
  rcases placeEntries_cases hvalidation hwindow with
    ⟨after, hplace, hadmits⟩ | ⟨fault, after, patch, k, between, hplace, hk, -, -, hrefuses, -⟩
  · exact iff_of_true ⟨after, hplace⟩ hadmits
  · refine iff_of_false ?_ fun hadmits => (hadmits k hk).not_refuses hrefuses
    rintro ⟨after', hplace'⟩
    cases hplace.symm.trans hplace'

/-- An accepted file is loaded exactly if every program header can be dealt with. -/
theorem answer_load_of_accepted {machine : Machine} (hwindow : machine.memory.mapping = .window)
    (h : loader.inspect (.file file) machine.memory.ram = .ok (header, entry)) :
    (loader.load (.file file)).answer machine = .ok entry ↔
      ∀ i < header.entryCount.toNat,
        header.table.Admits loader.width file machine.memory.ram i := by
  have hannounced : (announced machine header entry).memory.mapping = .window := hwindow
  have hplace : (∃ after, placeEntries ⟨loader.cls, loader.width, .trusted⟩ (.file file)
      header.table header.entryCount.toNat 0 (announced machine header entry) = .ok () after) ↔ _ :=
    exists_placeEntries_iff rfl hannounced _ _
  simp only [placeEntries_of_accepted h, Nat.zero_add] at hplace
  refine Iff.trans ?_ hplace
  rw [answer, load_of_accepted h]
  constructor
  · intro hanswer
    obtain ⟨left, hrun⟩ := ok_of_answer hanswer
    obtain ⟨⟨⟩, between, hplaced, -⟩ := bind_eq_ok_iff.mp hrun
    exact ⟨between, hplaced⟩
  · rintro ⟨between, hplaced⟩
    rw [bind_of_ok hplaced]
    rfl

/-- The load of a file whose table lies in it returns an entry point exactly if it is that of the
header, a strict loader finds nothing wrong with the header, and every segment to be loaded fits
and, for a strict loader, is sound. -/
theorem load_returns_iff {machine : Machine} (hwindow : machine.memory.mapping = .window)
    (hheader : Header.ofFile? loader.cls file = some header) (hinside : header.table.Inside file) :
    (loader.load (.file file)).answer machine = .ok entry ↔
      Entry.ofAddress? header.entry = some entry ∧
      (loader.validation.isStrict = true →
        header.checkIdent = .ok () ∧ loader.width.reaches header.entry = true) ∧
      ∀ ph ∈ header.table.entries file, ph.isLoadable = true →
        (loader.validation.isStrict = true → ph.Sound loader.width file) ∧
          ph.Fits loader.width file machine.memory.ram := by
  have hread : Header.ofImage (.file file) machine.memory.ram loader.cls = .ok header :=
    ofImage_of_ofFile? hheader
  have hsound := hinside.forall_iff fun ph => ph.isLoadable = true → ph.Sound loader.width file
  have hfits := hinside.forall_iff fun ph =>
    ph.isLoadable = true → ph.Fits loader.width file machine.memory.ram
  have hvet : loader.vet (.file file) machine.memory.ram header = .ok () ↔
      (header.checkIdent = .ok () ∧ loader.width.reaches header.entry = true) ∧
        ∀ ph ∈ header.table.entries file, ph.isLoadable = true → ph.Sound loader.width file := by
    rw [vet_eq_ok_iff, checkEntries_eq_ok_iff, ← hsound]
    simp only [Nat.zero_add, hinside, true_and, and_assoc]
    rfl
  constructor
  · intro hanswer
    obtain ⟨after, hload⟩ := ok_of_answer hanswer
    obtain ⟨header', hinspect, -⟩ := load_eq_ok hload
    obtain ⟨hread', hentry, hvetted⟩ := inspect_eq_ok_iff.mp hinspect
    cases hread.symm.trans hread'
    have hadmits := (answer_load_of_accepted hwindow hinspect).mp hanswer
    refine ⟨hentry, fun hstrict => (hvet.mp (hvetted hstrict)).1, fun ph hmem hload => ⟨?_, ?_⟩⟩
    · exact fun hstrict => (hvet.mp (hvetted hstrict)).2 ph hmem hload
    · exact hfits.mp hadmits ph hmem hload
  · rintro ⟨hentry, hident, hsegments⟩
    have hinspect : loader.inspect (.file file) machine.memory.ram = .ok (header, entry) := by
      refine inspect_eq_ok_iff.mpr ⟨hread, hentry, fun hstrict => hvet.mpr ⟨hident hstrict, ?_⟩⟩
      exact fun ph hmem hload => (hsegments ph hmem hload).1 hstrict
    refine (answer_load_of_accepted hwindow hinspect).mpr (hfits.mpr fun ph hmem hload => ?_)
    exact (hsegments ph hmem hload).2

end Loader

end Chainload.Elf
