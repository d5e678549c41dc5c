import Mathlib.Data.List.Basic
import Chainload.Proofs.ShownTables

/-!
# Where the fields of the information structure lie

The structure is packed: a field lies at the next multiple of the width of its words, but of no more
than four bytes (`Place.pack`, `Info.layout`). In that layout the fields follow each other without a
gap, from the first byte of the structure to the last (`Info.positions_layout`), so the structure
and its bytes determine each other (`Info.spelledBy_decode`, `Info.eq_iff_read_eq`).
-/

namespace Chainload

namespace Bytes

/-! ## Bytes and slices -/

/-- A byte is the number that the slice of it spells. -/
theorem toNat_getD (bytes : Bytes) (offset : Nat) :
    (bytes.getD offset 0).toNat = toNat (bytes.slice offset 1) := by
  rw [slice, List.getD_eq_getElem?_getD, ← List.head?_drop]
  cases bytes.drop offset with
  | nil => rfl
  | cons b rest => rfl

/-- A slice inside the bytes is the bytes at its positions. -/
theorem slice_eq_map_range' {bytes : Bytes} {offset len : Nat}
    (h : ∀ i ∈ List.range' offset len, i < bytes.length) :
    bytes.slice offset len = (List.range' offset len).map (bytes.getD · 0) := by
  apply List.ext_getElem?
  intro i
  rw [getElem?_slice, List.getElem?_map]
  split
  case isTrue hi =>
    have hin : offset + i < bytes.length := h _ (List.mem_range'_1.mpr (by omega))
    rw [List.getElem?_range' hi, Option.map_some, Nat.one_mul, List.getD_eq_getElem?_getD,
      List.getElem?_eq_getElem hin, Option.getD_some]
  case isFalse hi =>
    rw [List.getElem?_eq_none (by rw [List.length_range']; omega), Option.map_none]

/-- Slices of one length that lie one behind the other make up a slice. -/
theorem flatMap_slice_range (bytes : Bytes) (offset width count : Nat) :
    (List.range count).flatMap (fun i => bytes.slice (offset + i * width) width) =
      bytes.slice offset (count * width) := by
  induction count with
  | zero => simp [slice]
  | succ count ih =>
    rw [List.range_succ, List.flatMap_append, ih, List.flatMap_singleton, slice, slice, slice,
      Nat.succ_mul, List.take_add, List.drop_drop]

theorem ofNat_one_toNat (b : UInt8) : ofNat 1 b.toNat = [b] := by
  rw [ofNat, ofNat, UInt8.ofNat_toNat]

end Bytes

namespace Multiboot

/-! ## Packed structures -/

/-- A field of the information structure: words of one width, one behind the other. -/
structure Field where
  /-- The number of bytes of a word. -/
  width : Nat
  count : Nat
  /-- The numbers that the words hold. -/
  words : Info → List Nat

namespace Field

/-- The number of bytes of the field. -/
def size (field : Field) : Nat :=
  field.count * field.width

/-- The field as it lies in memory. -/
def encode (field : Field) (info : Info) : Bytes :=
  (field.words info).flatMap (Bytes.ofNat field.width)

end Field

/-- A field and the offset of its first byte. -/
structure Place extends Field where
  offset : Nat

namespace Place

/-- The offsets of the bytes of the field. -/
def positions (place : Place) : List Nat :=
  List.range' place.offset place.size

/-- The little-endian numbers that lie where the words of the field do. -/
def numbers (place : Place) (bytes : Bytes) : List Nat :=
  (List.range place.count).map fun i =>
    Bytes.toNat (bytes.slice (place.offset + i * place.width) place.width)

/-- The next multiple of an alignment. -/
def alignUp (n alignment : Nat) : Nat :=
  (n + (alignment - 1)) / alignment * alignment

/-- The fields in the order of their declaration, each as soon after the one before it as its
alignment lets it be. The alignment of a field is the width of its words, but `most` at most. -/
def pack (most : Nat) : (start : Nat) → List Field → List Place
  | _, [] => []
  | start, field :: rest =>
    let offset := alignUp start (min field.width most)
    ⟨field, offset⟩ :: pack most (offset + field.size) rest

theorem map_toField_pack (most start : Nat) (fields : List Field) :
    (pack most start fields).map (·.toField) = fields := by
  induction fields generalizing start with
  | nil => rfl
  | cons field rest ih => rw [pack, List.map_cons, ih]

/-- Fields that take up the bytes without a gap or an overlap are cut out of them one after the
other. -/
theorem flatMap_slice {places : List Place} {bytes : Bytes}
    (htile : places.flatMap positions = List.range bytes.length) :
    places.flatMap (fun place => bytes.slice place.offset place.size) = bytes := by
  -- A field without bytes may lie anywhere, so the positions carry the proof and not the bounds.
  have hslice : ∀ place ∈ places,
      bytes.slice place.offset place.size = place.positions.map (bytes.getD · 0) := by
    intro place hplace
    refine Bytes.slice_eq_map_range' fun i hi => List.mem_range.mp ?_
    rw [← htile]
    exact List.mem_flatMap.mpr ⟨place, hplace, hi⟩
  calc places.flatMap (fun place => bytes.slice place.offset place.size)
    _ = places.flatMap fun place => place.positions.map (bytes.getD · 0) :=
      List.flatMap_congr hslice
    _ = (places.flatMap positions).map (bytes.getD · 0) := List.map_flatMap.symm
    _ = (List.range bytes.length).map (bytes.getD · 0) := by rw [htile]
    _ = bytes.slice 0 bytes.length := by
      rw [List.range_eq_range', Bytes.slice_eq_map_range' fun i hi => by
        rw [List.mem_range'_1] at hi; omega]
    _ = bytes := Bytes.slice_self rfl

/-- A field that holds the numbers of its place is written as the bytes there. -/
theorem encode_eq_slice {place : Place} {info : Info} {bytes : Bytes}
    (hinside : place.offset + place.size ≤ bytes.length)
    (hwords : place.words info = place.numbers bytes) :
    place.encode info = bytes.slice place.offset place.size := by
  rw [Field.encode, hwords, numbers, List.flatMap_map, Field.size,
    ← Bytes.flatMap_slice_range]
  refine List.flatMap_congr fun i hi => Bytes.ofNat_toNat_slice ?_
  have hword : (i + 1) * place.width ≤ place.count * place.width :=
    Nat.mul_le_mul_right _ (List.mem_range.mp hi)
  rw [Nat.succ_mul] at hword
  unfold Field.size at hinside
  omega

end Place

namespace Info

/-- The fields of the structure in the order of their declaration. -/
def fields : List Field :=
  [⟨4, 1, ([·.flags.bits.toNat])⟩,
    ⟨4, 1, ([·.memLower.toNat])⟩,
    ⟨4, 1, ([·.memUpper.toNat])⟩,
    ⟨4, 1, ([·.bootDevice.toNat])⟩,
    ⟨4, 1, ([·.commandLine.toNat])⟩,
    ⟨4, 1, ([·.moduleCount.toNat])⟩,
    ⟨4, 1, ([·.moduleTable.toNat])⟩,
    ⟨4, 4, (·.symbols.toList.map UInt32.toNat)⟩,
    ⟨4, 1, ([·.mapLength.toNat])⟩,
    ⟨4, 1, ([·.mapAddress.toNat])⟩,
    ⟨4, 1, ([·.drivesLength.toNat])⟩,
    ⟨4, 1, ([·.drivesAddress.toNat])⟩,
    ⟨4, 1, ([·.configTable.toNat])⟩,
    ⟨4, 1, ([·.loaderName.toNat])⟩,
    ⟨4, 1, ([·.apmTable.toNat])⟩,
    ⟨4, 1, ([·.vbeControl.toNat])⟩,
    ⟨4, 1, ([·.vbeModeInfo.toNat])⟩,
    ⟨2, 1, ([·.vbeMode.toNat])⟩,
    ⟨2, 1, ([·.vbeSegment.toNat])⟩,
    ⟨2, 1, ([·.vbeOffset.toNat])⟩,
    ⟨2, 1, ([·.vbeLength.toNat])⟩,
    ⟨8, 1, ([·.framebufferAddress.toNat])⟩,
    ⟨4, 1, ([·.framebufferPitch.toNat])⟩,
    ⟨4, 1, ([·.framebufferWidth.toNat])⟩,
    ⟨4, 1, ([·.framebufferHeight.toNat])⟩,
    ⟨1, 1, ([·.framebufferDepth.toNat])⟩,
    ⟨1, 1, ([·.framebufferType.toNat])⟩,
    ⟨1, 6, (·.colorInfo.toList.map UInt8.toNat)⟩]

/-- The structure is packed to four bytes. -/
def layout : List Place :=
  Place.pack 4 0 fields

theorem offsets_layout :
    layout.map (·.offset) =
      [0, 4, 8, 12, 16, 20, 24, 28, 44, 48, 52, 56, 60, 64, 68, 72, 76, 80, 82, 84, 86, 88, 96, 100,
        104, 108, 109, 110] := by
  rfl

/-- The fields take up every byte of the structure, and none of them twice. -/
theorem positions_layout : layout.flatMap Place.positions = List.range size := by
  rfl

theorem place_inside : ∀ place ∈ layout, place.offset + place.size ≤ size := by
  decide

/-- Every field is read where the layout puts it. -/
theorem words_decode (bytes : Bytes) :
    ∀ place ∈ layout, place.words (decode bytes) = place.numbers bytes := by
  simp [layout, fields, Place.pack, Place.alignUp, Field.size, Place.numbers, decode,
    Bytes.toNat_getD, Bytes.toNat_word16, Bytes.toNat_word32, Bytes.toNat_word64,
    List.range_succ, Vector.toList, Array.toList_ofFn, List.ofFn_succ,
    -List.getD_eq_getElem?_getD]

/-- The fields are written in the order of their declaration. -/
theorem encode_eq_flatMap (info : Info) : info.encode = fields.flatMap (·.encode info) := by
  simp only [fields, Field.encode, List.flatMap_cons, List.flatMap_nil, List.append_nil,
    List.flatMap_map, Bytes.ofNat_one_toNat, List.flatMap_singleton']
  unfold encode
  simp only [List.append_assoc]
  rfl

/-- The bytes are the structure as it lies in memory: its fields are the little-endian numbers in
their places, and written one behind the other they are the bytes. -/
structure SpelledBy (info : Info) (bytes : Bytes) : Prop where
  words : ∀ place ∈ layout, place.words info = place.numbers bytes
  fields : fields.flatMap (·.encode info) = bytes
  encode : info.encode = bytes

theorem spelledBy_decode {bytes : Bytes} (h : bytes.length = size) :
    (decode bytes).SpelledBy bytes := by
  have hfields : fields.flatMap (·.encode (decode bytes)) = bytes := by
    calc fields.flatMap (·.encode (decode bytes))
      _ = layout.flatMap fun place => place.encode (decode bytes) := by
        rw [← Place.map_toField_pack 4 0 fields, List.flatMap_map, layout]
      _ = layout.flatMap fun place => bytes.slice place.offset place.size :=
        List.flatMap_congr fun place hplace =>
          Place.encode_eq_slice (h ▸ place_inside place hplace) (words_decode bytes place hplace)
      _ = bytes := Place.flatMap_slice (h ▸ positions_layout)
  exact ⟨words_decode bytes, hfields, (encode_eq_flatMap _).trans hfields⟩

theorem spelledBy_ofRam? {ram : Ram} {address : UInt64} {info : Info}
    (h : ofRam? ram address = some info) : info.SpelledBy (ram.read address.toNat size) := by
  rw [eq_decode_of_ofRam? h]
  exact spelledBy_decode (Ram.length_read ..)

/-- Structures in memory are the same if and only if they consist of the same bytes. -/
theorem eq_iff_read_eq {ram ram' : Ram} {address address' : UInt64} {info info' : Info}
    (h : ofRam? ram address = some info) (h' : ofRam? ram' address' = some info') :
    info = info' ↔ ram.read address.toNat size = ram'.read address'.toNat size := by
  constructor
  · rintro rfl
    rw [← (spelledBy_ofRam? h).encode, (spelledBy_ofRam? h').encode]
  · intro hread
    rw [eq_decode_of_ofRam? h, eq_decode_of_ofRam? h', hread]

end Info

namespace View

/-- Wherever RAM holds a structure, the views of it show the fields of the packed layout: the
numbers in their places, which lie one behind the other from the first byte to the last. The bytes
can be told from what a view shows. -/
theorem info_spelledBy_ram {ram : Ram} {address : UInt64}
    (h : ram.covers address.toNat Info.size = true) :
    (Info.layout.map (·.offset) =
        [0, 4, 8, 12, 16, 20, 24, 28, 44, 48, 52, 56, 60, 64, 68, 72, 76, 80, 82, 84, 86, 88, 96,
          100, 104, 108, 109, 110] ∧
      Info.layout.map (·.toField) = Info.fields ∧
      Info.layout.flatMap Place.positions = List.range Info.size) ∧
    ∃ info, Info.ofRam? ram address = some info ∧
      info.SpelledBy (ram.read address.toNat Info.size) ∧
      (∀ validation, info.TablesIn ram validation →
        ∃ view, ofRam? ram address validation = some view) ∧
      ∀ validation view, ofRam? ram address validation = some view → view.info = info ∧
        ∀ ram' address' validation' view', ofRam? ram' address' validation' = some view' →
          (view.info = view'.info ↔
            ram.read address.toNat Info.size = ram'.read address'.toNat Info.size) := by
  have hinfo : Info.ofRam? ram address = some (.decode (ram.read address.toNat Info.size)) := by
    rw [Info.ofRam?, Ram.read?, if_pos h, Option.map_some]
  refine ⟨⟨Info.offsets_layout, Place.map_toField_pack .., Info.positions_layout⟩, _, hinfo,
    Info.spelledBy_ofRam? hinfo, ?_, ?_⟩
  · intro validation htables
    obtain ⟨view, hview, -⟩ := exists_ofRam? hinfo htables
    exact ⟨view, hview⟩
  · intro validation view hview
    have hshown := (ofRam?_eq_some_iff.mp hview).1
    refine ⟨Option.some.inj (hshown.symm.trans hinfo), ?_⟩
    intro ram' address' validation' view' hview'
    exact Info.eq_iff_read_eq hshown (ofRam?_eq_some_iff.mp hview').1

/-- Every byte of this structure holds its own offset. -/
def counting : Ram :=
  ⟨0x1000, (List.range Info.size).map UInt8.ofNat⟩

/-- The address of the frame buffer is made of the bytes 88 to 95. -/
theorem info_spelledBy_ram_counting :
    counting.covers (0x1000 : UInt64).toNat Info.size = true ∧
      ∃ view, ofRam? counting 0x1000 .strict = some view ∧
        view.info.framebufferAddress = 0x5F5E_5D5C_5B5A_5958 ∧
        view.info.encode = (List.range Info.size).map UInt8.ofNat := by
  have hcovers : counting.covers (0x1000 : UInt64).toNat Info.size = true := by decide +kernel
  obtain ⟨-, info, hinfo, hspelled, hviews, hshown⟩ := info_spelledBy_ram hcovers
  have hdecode := Info.eq_decode_of_ofRam? hinfo
  have hmodules : info.flags.has .modules = false := by
    rw [hdecode]
    decide +kernel
  have hmap : info.flags.has .memoryMap = false := by
    rw [hdecode]
    decide +kernel
  have htables : info.TablesIn counting .strict :=
    ⟨fun hbelieved => by simp [hmodules] at hbelieved, fun hflag => by simp [hmap] at hflag⟩
  obtain ⟨view, hview⟩ := hviews .strict htables
  obtain ⟨rfl, -⟩ := hshown .strict view hview
  refine ⟨hcovers, view, hview, ?_, hspelled.encode.trans (by decide +kernel)⟩
  rw [hdecode]
  decide +kernel

end View

end Multiboot

end Chainload
