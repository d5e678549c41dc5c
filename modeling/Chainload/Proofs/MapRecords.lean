import Chainload.Multiboot.MemoryMap
import Chainload.Proofs.Encoding

/-!
# The records of a memory map

A memory map is read as its records were written. `Record.encode` writes a record, `Record.read?`
reads the one that a buffer starts with, and the two are inverse to each other
(`Record.read?_eq_some_iff`), so a buffer starts with one record at most.

What a walk still reads depends on the bytes in front of it alone, not on where it stands
(`Walk.entries_congr`). Hence a walk reads one record after the other and stops where no complete
one follows (`NoRecord`). `entries_of_longest_run` says so for whole buffers: the entries are those
of the longest run of complete records that the buffer starts with.
-/

namespace Chainload.Multiboot.MemoryMap

/-! ## Records -/

/-- A record as it is written: three fields and bytes that mean nothing. Four bytes can state its
size. -/
@[ext]
structure Record where
  base : UInt64
  length : UInt64
  /-- The number of the type. -/
  number : UInt32
  filler : Bytes
  fits : leastSize + filler.length < UInt32.size

namespace Record

/-- The record as it lies in the buffer. -/
def encode (record : Record) : Bytes :=
  encodeRecord record.base record.length record.number record.filler

/-- The record behind its size field. -/
def fields (record : Record) : Bytes :=
  Bytes.ofUInt64 record.base ++ Bytes.ofUInt64 record.length ++ Bytes.ofUInt32 record.number ++
    record.filler

/-- The entry that the record stands for. -/
def entry (record : Record) : MapEntry :=
  ⟨record.base, record.length, .ofNumber record.number⟩

/-- The addresses of the record. -/
def region (record : Record) : Region :=
  ⟨record.base, record.length⟩

@[simp] theorem length_fields (record : Record) :
    record.fields.length = leastSize + record.filler.length := by
  simp only [fields, List.length_append, Bytes.length_ofUInt64, Bytes.length_ofUInt32, leastSize]

theorem encode_eq (record : Record) :
    record.encode = Bytes.ofNat 4 record.fields.length ++ record.fields := by
  rw [length_fields]
  simp only [encode, encodeRecord, fields, List.append_assoc]

@[simp] theorem length_encode (record : Record) :
    record.encode.length = 4 + record.fields.length := by
  simp [encode_eq]

theorem decodeEntry_fields (record : Record) : decodeEntry record.fields = record.entry := by
  have hbase : record.fields.word64 0 = record.base := Bytes.word64_of_slice (by simp [fields])
  have hlength : record.fields.word64 8 = record.length :=
    Bytes.word64_of_slice (by simp [fields])
  have hnumber : record.fields.word32 16 = record.number :=
    Bytes.word32_of_slice (by simp [fields])
  rw [decodeEntry, hbase, hlength, hnumber]
  rfl

end Record

/-! ## The record that a buffer starts with -/

/-- The number in the size field that a buffer starts with. -/
def sizeField (bytes : Bytes) : Nat :=
  Bytes.toNat (bytes.take 4)

/-- No complete record starts here: there is no room for the size field, the size is too small for
the fields, or it is that of a record that does not fit. -/
def NoRecord (bytes : Bytes) : Prop :=
  bytes.length < 4 ∨ sizeField bytes < leastSize ∨ bytes.length < sizeField bytes + 4

instance (bytes : Bytes) : Decidable (NoRecord bytes) :=
  inferInstanceAs (Decidable (_ ∨ _ ∨ _))

theorem sizeField_lt (bytes : Bytes) : sizeField bytes < UInt32.size := by
  have hlt := Bytes.toNat_lt (bytes.take 4)
  have hpow : 256 ^ (bytes.take 4).length ≤ 256 ^ 4 :=
    Nat.pow_le_pow_right (by decide) (by rw [List.length_take]; omega)
  exact Nat.lt_of_lt_of_le hlt hpow

namespace Record

variable {bytes tail : Bytes} {record : Record}

/-- The record that a buffer starts with, and the bytes behind it. -/
def read? (bytes : Bytes) : Option (Record × Bytes) :=
  if h : NoRecord bytes then none
  else some
    ({ base := bytes.word64 4
       length := bytes.word64 12
       number := bytes.word32 20
       filler := bytes.slice 24 (sizeField bytes - leastSize)
       fits := by
        have hsize := sizeField_lt bytes
        simp only [NoRecord, Bytes.slice, List.length_take, List.length_drop] at h ⊢
        omega },
      bytes.drop (4 + sizeField bytes))

theorem read?_eq_none_iff : read? bytes = none ↔ NoRecord bytes := by
  unfold read?
  split <;> simp [*]

theorem sizeField_encode_append (record : Record) (tail : Bytes) :
    sizeField (record.encode ++ tail) = record.fields.length := by
  have hfits := record.fits
  rw [sizeField, encode_eq, List.append_assoc, List.take_left' (Bytes.length_ofNat ..),
    Bytes.toNat_ofNat, length_fields]
  exact Nat.mod_eq_of_lt hfits

theorem not_noRecord_encode_append (record : Record) (tail : Bytes) :
    ¬NoRecord (record.encode ++ tail) := by
  simp only [NoRecord, sizeField_encode_append, List.length_append, length_encode, length_fields]
  omega

/-- A record that was written is read back, whatever follows it. -/
theorem read?_encode_append (record : Record) (tail : Bytes) :
    read? (record.encode ++ tail) = some (record, tail) := by
  have hbase : (record.encode ++ tail).word64 4 = record.base :=
    Bytes.word64_of_slice (by simp [encode_eq, fields])
  have hlength : (record.encode ++ tail).word64 12 = record.length :=
    Bytes.word64_of_slice (by simp [encode_eq, fields])
  have hnumber : (record.encode ++ tail).word32 20 = record.number :=
    Bytes.word32_of_slice (by simp [encode_eq, fields])
  have hfiller : (record.encode ++ tail).slice 24 record.filler.length = record.filler := by
    simp [encode_eq, fields]
  rw [read?, dif_neg (record.not_noRecord_encode_append tail)]
  simp only [sizeField_encode_append, ← length_encode, List.drop_left]
  simp only [length_fields, Nat.add_sub_cancel_left, hbase, hlength, hnumber, hfiller]

/-- What is read as a record was written as one. -/
theorem encode_append_of_read? (h : read? bytes = some (record, tail)) :
    record.encode ++ tail = bytes := by
  unfold read? at h
  split at h
  case isTrue => cases h
  case isFalse hrecord =>
    cases h
    obtain ⟨hsize, hlen⟩ : leastSize ≤ sizeField bytes ∧ sizeField bytes + 4 ≤ bytes.length := by
      simp only [NoRecord] at hrecord
      omega
    unfold leastSize at hsize
    -- The parts of the record lie one behind the other.
    have hstated : Bytes.ofNat 4 (sizeField bytes) = bytes.slice 0 4 :=
      Bytes.ofNat_toNat_slice (show 0 + 4 ≤ List.length bytes by omega)
    have hbase := Bytes.ofUInt64_word64 (show 4 + 8 ≤ List.length bytes by omega)
    have hlength := Bytes.ofUInt64_word64 (show 12 + 8 ≤ List.length bytes by omega)
    have hnumber := Bytes.ofUInt32_word32 (show 20 + 4 ≤ List.length bytes by omega)
    have hfiller : (bytes.slice 24 (sizeField bytes - leastSize)).length =
        sizeField bytes - leastSize := Bytes.length_slice (by unfold leastSize; omega)
    have hend : 4 + sizeField bytes = 24 + (sizeField bytes - leastSize) := by
      unfold leastSize
      omega
    have htotal : leastSize + (sizeField bytes - leastSize) = sizeField bytes := by
      unfold leastSize
      omega
    simp only [encode, encodeRecord, hfiller, htotal, hstated, hbase, hlength, hnumber, hend,
      List.append_assoc]
    rw [Bytes.slice_append_drop, Bytes.slice_append_drop, Bytes.slice_append_drop,
      Bytes.slice_append_drop, Bytes.slice_append_drop, List.drop_zero]

/-- A buffer starts with a record exactly if the record is read there. -/
theorem read?_eq_some_iff : read? bytes = some (record, tail) ↔ record.encode ++ tail = bytes :=
  ⟨encode_append_of_read?, fun h => h ▸ record.read?_encode_append tail⟩

end Record

/-! ## Walking from record to record -/

namespace Walk

variable {walk walk' : Walk} {record : Record} {tail : Bytes}

/-- The bytes that the walk has not passed yet. -/
def rest (walk : Walk) : Bytes :=
  walk.bytes.drop walk.offset

theorem next_eq (walk : Walk) :
    walk.next =
      if walk.rest.length < 4 then (none, walk)
      else if sizeField walk.rest < leastSize then
        (none, { walk with offset := walk.bytes.length })
      else if walk.rest.length < 4 + sizeField walk.rest then (none, walk)
      else (some (decodeEntry (walk.rest.slice 4 (sizeField walk.rest))),
        { walk with offset := walk.offset + 4 + sizeField walk.rest }) :=
  rfl

/-- Where no complete record follows, the walk finds nothing. -/
theorem next_of_noRecord (h : NoRecord walk.rest) : walk.next.1 = none := by
  rw [next_eq]
  split
  · rfl
  split
  · rfl
  split
  · rfl
  · simp only [NoRecord] at h
    omega

/-- A record that follows is read, and the walk stands behind it. -/
theorem next_of_record (h : record.encode ++ tail = walk.rest) :
    walk.next.1 = some record.entry ∧ walk.next.2.rest = tail := by
  have hrecord := record.not_noRecord_encode_append tail
  have hsize := record.sizeField_encode_append tail
  rw [h] at hrecord hsize
  simp only [NoRecord, not_or] at hrecord
  have hfields : walk.rest.slice 4 (sizeField walk.rest) = record.fields := by
    rw [hsize, ← h]
    simp [Record.encode_eq]
  have htail : walk.bytes.drop (walk.offset + 4 + sizeField walk.rest) = tail := by
    rw [Nat.add_assoc, hsize, ← record.length_encode, ← List.drop_drop, ← rest, ← h,
      List.drop_left]
  rw [next_eq, if_neg hrecord.1, if_neg hrecord.2.1, if_neg (by omega), hfields,
    record.decodeEntry_fields]
  exact ⟨rfl, htail⟩

/-- What is still to be read is told by the bytes that the walk has not passed yet. -/
theorem entries_eq (walk : Walk) :
    walk.entries =
      match walk.next.1 with
      | none => []
      | some entry => entry :: walk.next.2.entries := by
  rw [entries]
  split <;> simp [*]

theorem entries_of_noRecord (h : NoRecord walk.rest) : walk.entries = [] := by
  rw [entries_eq, next_of_noRecord h]

theorem entries_of_record (h : record.encode ++ tail = walk.rest) :
    ∃ after : Walk, after.rest = tail ∧ walk.entries = record.entry :: after.entries := by
  obtain ⟨hentry, hrest⟩ := next_of_record h
  refine ⟨walk.next.2, hrest, ?_⟩
  rw [entries_eq, hentry]

/-- Walks with the same bytes in front of them read the same. -/
theorem entries_congr {walk walk' : Walk} (h : walk.rest = walk'.rest) :
    walk.entries = walk'.entries := by
  cases hread : Record.read? walk.rest with
  | none =>
    have hnone := Record.read?_eq_none_iff.mp hread
    rw [entries_of_noRecord hnone, entries_of_noRecord (h ▸ hnone)]
  | some found =>
    obtain ⟨record, tail⟩ := found
    have hrecord := Record.encode_append_of_read? hread
    obtain ⟨after, hafter, hentries⟩ := entries_of_record hrecord
    obtain ⟨after', hafter', hentries'⟩ := entries_of_record (hrecord.trans h)
    have hless : after.rest.length < walk.rest.length := by
      rw [← hrecord, hafter, List.length_append, record.length_encode]
      omega
    rw [hentries, hentries', entries_congr (hafter.trans hafter'.symm)]
termination_by walk.rest.length

end Walk

/-! ## Whole maps -/

theorem rest_start (bytes : Bytes) : (Walk.start bytes).rest = bytes :=
  rfl

theorem entries_encode_append (record : Record) (tail : Bytes) :
    entries (record.encode ++ tail) = record.entry :: entries tail := by
  obtain ⟨after, hafter, hentries⟩ :=
    Walk.entries_of_record (rest_start (record.encode ++ tail)).symm
  rw [entries, hentries, Walk.entries_congr (hafter.trans (rest_start tail).symm), entries]

theorem entries_eq_nil_iff {bytes : Bytes} : entries bytes = [] ↔ NoRecord bytes := by
  constructor
  · intro h
    cases hread : Record.read? bytes with
    | none => exact Record.read?_eq_none_iff.mp hread
    | some found =>
      rw [← Record.encode_append_of_read? hread, entries_encode_append] at h
      cases h
  · intro h
    exact Walk.entries_of_noRecord h

/-- Records one behind the other. -/
def encodeAll (records : List Record) : Bytes :=
  records.flatMap Record.encode

@[simp] theorem encodeAll_nil_append (tail : Bytes) : encodeAll [] ++ tail = tail :=
  rfl

@[simp] theorem encodeAll_cons_append (record : Record) (rest : List Record) (tail : Bytes) :
    encodeAll (record :: rest) ++ tail = record.encode ++ (encodeAll rest ++ tail) := by
  simp [encodeAll]

theorem entries_encodeAll_append (records : List Record) (tail : Bytes) :
    entries (encodeAll records ++ tail) = records.map Record.entry ++ entries tail := by
  induction records with
  | nil => rfl
  | cons record rest ih =>
    rw [encodeAll_cons_append, entries_encode_append, ih, List.map_cons, List.cons_append]

/-- A buffer is a run of complete records and a tail that starts with none. -/
theorem exists_encodeAll_append (bytes : Bytes) :
    ∃ records tail, encodeAll records ++ tail = bytes ∧ NoRecord tail := by
  cases hread : Record.read? bytes with
  | none => exact ⟨[], bytes, rfl, Record.read?_eq_none_iff.mp hread⟩
  | some found =>
    obtain ⟨record, behind⟩ := found
    have hrecord := Record.encode_append_of_read? hread
    have hless : behind.length < bytes.length := by
      rw [← hrecord, List.length_append, record.length_encode]
      omega
    obtain ⟨records, tail, hbehind, htail⟩ := exists_encodeAll_append behind
    exact ⟨record :: records, tail, by rw [encodeAll_cons_append, hbehind, hrecord], htail⟩
termination_by bytes.length

/-- Of all runs of records that a buffer starts with, the one that no record follows is the
longest. -/
theorem prefix_of_encodeAll_append {tail tail' : Bytes} (htail : NoRecord tail) :
    ∀ {records records' : List Record}, encodeAll records' ++ tail' = encodeAll records ++ tail →
      records' <+: records
  | _, [], _ => List.nil_prefix
  | [], record' :: rest', h => by
    rw [encodeAll_cons_append, encodeAll_nil_append] at h
    exact absurd (h ▸ htail) (record'.not_noRecord_encode_append _)
  | record :: rest, record' :: rest', h => by
    rw [encodeAll_cons_append, encodeAll_cons_append, ← Record.read?_eq_some_iff,
      Record.read?_encode_append] at h
    obtain ⟨rfl, hrest⟩ := Prod.mk.inj (Option.some.inj h)
    exact List.cons_prefix_cons.mpr ⟨rfl, prefix_of_encodeAll_append htail hrest.symm⟩

theorem Record.kind_entry_eq_available_iff (record : Record) :
    record.entry.kind = .available ↔ record.number = 1 := by
  show RangeKind.ofNumber record.number = .available ↔ _
  unfold RangeKind.ofNumber
  repeat' split
  all_goals simp [*]

/-- The available ranges of a map of records are those of the records of type 1. -/
theorem available_of_entries {bytes : Bytes} {records : List Record}
    (h : entries bytes = records.map Record.entry) :
    available bytes = (records.filter (·.number = 1)).map Record.region := by
  rw [available, h, List.filter_map, List.map_map]
  congr 2
  funext record
  exact decide_eq_decide.mpr record.kind_entry_eq_available_iff

/-- The available ranges of records one behind the other are those of type 1. -/
theorem available_encodeAll (records : List Record) :
    available (encodeAll records) = (records.filter (·.number = 1)).map Record.region := by
  have hnil : entries [] = [] := entries_eq_nil_iff.mpr (.inl (by decide))
  have hentries := entries_encodeAll_append records []
  rw [hnil, List.append_nil, List.append_nil] at hentries
  exact available_of_entries hentries

/-- A walk over records reads all of them, whatever their filler, and goes on with what follows; it
reads nothing exactly where no complete record starts. So every buffer starts with a longest run of
complete records, the entries are those of that run, and the available ranges those of its records
of type 1. -/
theorem entries_of_longest_run :
    (∀ (records : List Record) (tail : Bytes),
      entries (encodeAll records ++ tail) = records.map Record.entry ++ entries tail) ∧
    (∀ tail : Bytes, entries tail = [] ↔
      tail.length < 4 ∨ sizeField tail < leastSize ∨ tail.length < sizeField tail + 4) ∧
    ∀ bytes : Bytes, ∃ records tail, encodeAll records ++ tail = bytes ∧
      (∀ records' tail', encodeAll records' ++ tail' = bytes → records' <+: records) ∧
      entries bytes = records.map Record.entry ∧
      available bytes = (records.filter (·.number = 1)).map Record.region := by
  refine ⟨entries_encodeAll_append, fun _ => entries_eq_nil_iff, fun bytes => ?_⟩
  obtain ⟨records, tail, rfl, htail⟩ := exists_encodeAll_append bytes
  have hentries : entries (encodeAll records ++ tail) = records.map Record.entry := by
    rw [entries_encodeAll_append, entries_eq_nil_iff.mpr htail, List.append_nil]
  exact ⟨records, tail, rfl, fun _ _ h => prefix_of_encodeAll_append htail h, hentries,
    available_of_entries hentries⟩

end Chainload.Multiboot.MemoryMap
