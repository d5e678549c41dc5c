import Chainload.Proofs.LayoutCheck
import Chainload.Proofs.MapRecords

/-!
# Areas backed by available memory

The chain writes three areas of its layout, and each has to be memory. The memory map of the
bootloader says so by a record of type 1 that holds the whole area and does not wrap
(`Record.Backs`); several records that hold it together do not count.

A record counts if it stands in the buffer behind complete records (`MemoryMap.Reports`). The
comparison of a layout with a memory map finds the first area that no such record backs
(`Layout.Checked.shortage?_of_map`). An area of a checked layout is not empty, so only records that
are of type 1, not empty and do not wrap can back it (`Record.Backs.usable`); which of these a map
reports is all that matters, and more of them do no harm.
-/

namespace Chainload

open Elf Layout Multiboot

/-- A region encloses another one, without wrapping, if it does so as a set of numbers. -/
theorem Region.encloses_iff {outer inner : Region} :
    outer.encloses inner = true ↔
      outer.start.toNat + outer.len.toNat ≤ UInt64.size - 1 ∧
        outer.start.toNat ≤ inner.start.toNat ∧
        inner.start.toNat + inner.len.toNat ≤ outer.start.toNat + outer.len.toNat := by
  have hsize : UInt64.size = 0x1_0000_0000_0000_0000 := rfl
  unfold encloses
  cases houter : outer.limit? with
  | none =>
    rw [limit?_eq_none_iff] at houter
    have hbeyond : ¬outer.start.toNat + outer.len.toNat ≤ UInt64.size - 1 := by omega
    exact iff_of_false (by cases inner.limit? <;> nofun) fun h => hbeyond h.1
  | some limit =>
    have hlt := limit.toNat_lt
    have hsum := limit?_eq_some_iff.mp houter
    cases hinner : inner.limit? with
    | none =>
      rw [limit?_eq_none_iff] at hinner
      simp only [Bool.false_eq_true, false_iff]
      omega
    | some innerLimit =>
      have hinnerSum := limit?_eq_some_iff.mp hinner
      simp only [Bool.and_eq_true, decide_eq_true_eq, UInt64.le_iff_toNat_le]
      omega

namespace Multiboot.MemoryMap

variable {bytes bytes' : Bytes} {record : Record} {region : Region}

/-! ## Records that a map reports -/

/-- The record stands in the buffer behind complete records. -/
def Reports (bytes : Bytes) (record : Record) : Prop :=
  ∃ front tail, encodeAll front ++ (record.encode ++ tail) = bytes

theorem encodeAll_append (front back : List Record) :
    encodeAll (front ++ back) = encodeAll front ++ encodeAll back :=
  List.flatMap_append

/-- A map of records reports these records, in whatever order and however often they stand there. -/
theorem reports_encodeAll_append_iff {records : List Record} {tail : Bytes}
    (htail : NoRecord tail) : Reports (encodeAll records ++ tail) record ↔ record ∈ records := by
  constructor
  · rintro ⟨front, behind, h⟩
    have hrun : encodeAll (front ++ [record]) ++ behind = encodeAll records ++ tail := by
      rw [encodeAll_append, List.append_assoc, encodeAll_cons_append, encodeAll_nil_append, h]
    exact (prefix_of_encodeAll_append htail hrun).subset (by simp)
  · intro hmem
    obtain ⟨front, back, rfl⟩ := List.append_of_mem hmem
    refine ⟨front, encodeAll back ++ tail, ?_⟩
    rw [encodeAll_append, List.append_assoc, encodeAll_cons_append]

/-- The available ranges are those of the reported records of type 1. -/
theorem mem_available_iff :
    region ∈ available bytes ↔
      ∃ record, Reports bytes record ∧ record.number = 1 ∧ record.region = region := by
  obtain ⟨records, tail, rfl, htail⟩ := exists_encodeAll_append bytes
  have hentries : entries (encodeAll records ++ tail) = records.map Record.entry := by
    rw [entries_encodeAll_append, entries_eq_nil_iff.mpr htail, List.append_nil]
  simp only [available_of_entries hentries, reports_encodeAll_append_iff htail, List.mem_map,
    List.mem_filter, decide_eq_true_eq, and_assoc]

/-! ## Records that back a region -/

namespace Record

/-- The record is of type 1, its addresses do not wrap, and the region is part of them. -/
structure Backs (record : Record) (region : Region) : Prop where
  available : record.number = 1
  below : record.base.toNat + record.length.toNat ≤ UInt64.size - 1
  start : record.base.toNat ≤ region.start.toNat
  stop : region.start.toNat + region.len.toNat ≤ record.base.toNat + record.length.toNat

/-- The record is of type 1, not empty, and its addresses do not wrap. -/
structure Usable (record : Record) : Prop where
  available : record.number = 1
  nonempty : 1 ≤ record.length.toNat
  below : record.base.toNat + record.length.toNat ≤ UInt64.size - 1

theorem Backs.usable (h : record.Backs region) (hne : 1 ≤ region.len.toNat) : record.Usable where
  available := h.available
  nonempty := by
    have hstart := h.start
    have hstop := h.stop
    omega
  below := h.below

theorem Backs.holds (h : record.Backs region) {a : Nat} (ha : region.span.Holds a) :
    record.region.span.Holds a :=
  ⟨Nat.le_trans h.start ha.1, Nat.lt_of_lt_of_le ha.2 h.stop⟩

end Record

/-- A reported record backs the region. -/
def Backed (bytes : Bytes) (region : Region) : Prop :=
  ∃ record, Reports bytes record ∧ record.Backs region

/-- The comparison with the available ranges looks for a record that backs the region. -/
theorem any_encloses_iff :
    (available bytes).any (·.encloses region) = true ↔ Backed bytes region := by
  rw [List.any_eq_true]
  constructor
  · rintro ⟨outer, hmem, hencloses⟩
    obtain ⟨record, hreports, hnumber, rfl⟩ := mem_available_iff.mp hmem
    obtain ⟨hbelow, hstart, hstop⟩ := Region.encloses_iff.mp hencloses
    exact ⟨record, hreports, hnumber, hbelow, hstart, hstop⟩
  · rintro ⟨record, hreports, h⟩
    exact ⟨record.region, mem_available_iff.mpr ⟨record, hreports, h.available, rfl⟩,
      Region.encloses_iff.mpr ⟨h.below, h.start, h.stop⟩⟩

/-- More usable records back no less. -/
theorem Backed.mono (hne : 1 ≤ region.len.toNat)
    (h : ∀ record : Record, record.Usable → Reports bytes record → Reports bytes' record) :
    Backed bytes region → Backed bytes' region := by
  rintro ⟨record, hreports, hbacks⟩
  exact ⟨record, h record (hbacks.usable hne) hreports, hbacks⟩

end Multiboot.MemoryMap

/-! ## The areas of a checked layout -/

namespace Layout.Checked

open MemoryMap

variable {checked : Checked} {bytes bytes' : Bytes} {fault : Fault}

theorem nonempty (checked : Checked) (area : Area) :
    1 ≤ (checked.layout.region area).len.toNat :=
  ((fault?_eq_none_iff.mp checked.faultless).1 area).nonempty

/-- The fault of an area, if nothing available encloses it. -/
def unavailable? (checked : Checked) (available : List Region) (area : Area) : Option Fault :=
  if available.any (·.encloses (checked.layout.region area)) then none
  else some (.unavailable area)

theorem shortage?_eq (checked : Checked) (available : List Region) :
    checked.shortage? available =
      [Area.stub, .kernel, .scratch].findSome? (checked.unavailable? available) :=
  rfl

theorem unavailable?_eq_none_iff {area : Area} :
    checked.unavailable? (available bytes) area = none ↔
      Backed bytes (checked.layout.region area) := by
  rw [← any_encloses_iff, unavailable?]
  split <;> simp [*]

theorem unavailable?_eq_some_iff {area : Area} :
    checked.unavailable? (available bytes) area = some fault ↔
      ¬Backed bytes (checked.layout.region area) ∧ fault = .unavailable area := by
  rw [← any_encloses_iff, unavailable?]
  split <;> simp [*, eq_comm]

theorem shortage?_eq_none_iff :
    checked.shortage? (available bytes) = none ↔
      ∀ area ∈ [Area.stub, .kernel, .scratch], Backed bytes (checked.layout.region area) := by
  simp only [shortage?_eq, List.findSome?_eq_none_iff, unavailable?_eq_none_iff]

theorem shortage?_eq_some_iff :
    checked.shortage? (available bytes) = some fault ↔
      ∃ before area later, [Area.stub, .kernel, .scratch] = before ++ area :: later ∧
        (¬Backed bytes (checked.layout.region area) ∧ fault = .unavailable area) ∧
        ∀ earlier ∈ before, Backed bytes (checked.layout.region earlier) := by
  simp only [shortage?_eq, List.findSome?_eq_some_iff, unavailable?_eq_some_iff,
    unavailable?_eq_none_iff]

/-- Maps that report the same usable records leave the same areas without memory. -/
theorem shortage?_congr (h : ∀ record : Record, record.Usable →
    (Reports bytes record ↔ Reports bytes' record)) :
    checked.shortage? (available bytes') = checked.shortage? (available bytes) := by
  rw [shortage?_eq, shortage?_eq]
  refine congrArg (List.findSome? · _) (funext fun area => ?_)
  have hbacked : Backed bytes' (checked.layout.region area) ↔
      Backed bytes (checked.layout.region area) :=
    ⟨.mono (checked.nonempty area) fun record husable => (h record husable).mpr,
      .mono (checked.nonempty area) fun record husable => (h record husable).mp⟩
  simp only [unavailable?, Bool.eq_iff_iff.mpr (any_encloses_iff.trans
    (hbacked.trans any_encloses_iff.symm))]

/-- Nothing is missing exactly if each area that the chain writes is part of a reported record of
type 1 that does not wrap, and then every address that the chain writes is reported available.
Otherwise the first area without such a record is named. Maps that report the same usable records,
in any order and number, have the same outcome, and where nothing is missing, nothing is missing
with more of them. -/
theorem shortage?_of_map (checked : Checked) (bytes : Bytes) :
    (checked.shortage? (available bytes) = none ↔
      ∀ area ∈ [Area.stub, .kernel, .scratch], Backed bytes (checked.layout.region area)) ∧
    (∀ fault, checked.shortage? (available bytes) = some fault ↔
      ∃ before area later, [Area.stub, .kernel, .scratch] = before ++ area :: later ∧
        (¬Backed bytes (checked.layout.region area) ∧ fault = .unavailable area) ∧
        ∀ earlier ∈ before, Backed bytes (checked.layout.region earlier)) ∧
    (checked.shortage? (available bytes) = none → ∀ a, checked.layout.Writable a →
      ∃ record, Reports bytes record ∧ record.number = 1 ∧ record.region.span.Holds a) ∧
    ∀ bytes',
      ((∀ record : Record, record.Usable → (Reports bytes record ↔ Reports bytes' record)) →
        checked.shortage? (available bytes') = checked.shortage? (available bytes)) ∧
      ((∀ record : Record, record.Usable → Reports bytes record → Reports bytes' record) →
        checked.shortage? (available bytes) = none →
          checked.shortage? (available bytes') = none) := by
  refine ⟨shortage?_eq_none_iff, fun _ => shortage?_eq_some_iff, ?_,
    fun bytes' => ⟨shortage?_congr, fun hmore hnone => ?_⟩⟩
  · rintro hnone a ⟨area, hmem, ha⟩
    obtain ⟨record, hreports, hbacks⟩ := shortage?_eq_none_iff.mp hnone area hmem
    exact ⟨record, hreports, hbacks.available, hbacks.holds ha⟩
  · exact shortage?_eq_none_iff.mpr fun area hmem =>
      (shortage?_eq_none_iff.mp hnone area hmem).mono (checked.nonempty area) hmore

/-- Two ranges that hold the scratch region together do not back it. -/
example : shortage? ⟨.standard, .bits32, by decide⟩
    [⟨0x10_0000, 0x7F0_0000⟩, ⟨0x800_0000, 0x800_0000⟩] = some (.unavailable .scratch) := by
  decide

end Layout.Checked

end Chainload
