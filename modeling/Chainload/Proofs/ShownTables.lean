import Chainload.Multiboot.View
import Chainload.Proofs.MapRecords
import Chainload.Proofs.Window

/-!
# What a view shows

A view reads the tables that the information structure names, as far as they are believed, and RAM
has to hold all of them (`Info.TablesIn`). The records of a module table and the bytes that they
are written as determine each other (`Module.decodeTable_flatMap_encode`,
`Module.flatMap_encode_decodeTable`). So a view shows the one list of modules that lies where the
structure says, and likewise the one memory map (`View.ofRam?_eq_some_iff`).

What is not believed is not looked at. What a strict view shows without the module flag depends on
the flags, the memory map and the fields that say where it lies (`View.tables_eq_of_agree`). A
memory map may lie over the structure, though, and the fields of the module table are then part of
it (`View.strict_map_over_moduleCount`).
-/

namespace Chainload.Multiboot

open Elf

/-! ## Tables of modules -/

namespace Module

@[simp] theorem length_encode (entry : Module) : entry.encode.length = size := by
  simp [encode, size]

/-- What follows a record does not matter to it. -/
theorem decode_encode_append (entry : Module) (tail : Bytes) :
    decode (entry.encode ++ tail) = entry := by
  have hstart : (entry.encode ++ tail).word32 0 = entry.start :=
    Bytes.word32_of_slice (by simp [encode])
  have hstop : (entry.encode ++ tail).word32 4 = entry.stop :=
    Bytes.word32_of_slice (by simp [encode])
  have hcommandLine : (entry.encode ++ tail).word32 8 = entry.commandLine :=
    Bytes.word32_of_slice (by simp [encode])
  have hreserved : (entry.encode ++ tail).word32 12 = entry.reserved :=
    Bytes.word32_of_slice (by simp [encode])
  rw [decode, hstart, hstop, hcommandLine, hreserved]

theorem encode_decode {bytes : Bytes} (h : size ≤ bytes.length) :
    (decode bytes).encode = bytes.take size := by
  unfold size at h ⊢
  rw [decode, encode, Bytes.ofUInt32_word32 (by omega), Bytes.ofUInt32_word32 (by omega),
    Bytes.ofUInt32_word32 (by omega), Bytes.ofUInt32_word32 (by omega)]
  have htake : bytes.take 16 = bytes.take (0 + 4 + 4 + 4 + 4) := rfl
  rw [htake, List.take_add, List.take_add, List.take_add, List.take_add, List.take_zero,
    List.nil_append]
  rfl

/-- The modules are read from the table that they were written to. -/
theorem decodeTable_flatMap_encode (modules : List Module) :
    decodeTable modules.length (modules.flatMap encode) = modules := by
  induction modules with
  | nil => rfl
  | cons entry rest ih =>
    rw [List.length_cons, List.flatMap_cons, decodeTable, decode_encode_append,
      List.drop_left' (length_encode entry), ih]

/-- The modules of a table are written as the table. -/
theorem flatMap_encode_decodeTable {count : Nat} {bytes : Bytes}
    (h : bytes.length = count * size) : (decodeTable count bytes).flatMap encode = bytes := by
  induction count generalizing bytes with
  | zero => exact (List.eq_nil_of_length_eq_zero (by omega)).symm
  | succ count ih =>
    rw [Nat.succ_mul] at h
    have hrest : (bytes.drop size).length = count * size := by
      rw [List.length_drop]
      omega
    rw [decodeTable, List.flatMap_cons, encode_decode (by omega), ih hrest,
      List.take_append_drop]

@[simp] theorem length_flatMap_encode (modules : List Module) :
    (modules.flatMap encode).length = modules.length * size := by
  induction modules with
  | nil => rfl
  | cons entry rest ih => rw [List.flatMap_cons, List.length_append, ih, length_encode,
      List.length_cons, Nat.succ_mul, Nat.add_comm]

end Module

namespace ModuleTable

/-- The records of a table are read if the RAM covers it and holds them there. -/
theorem read?_eq_some_iff {table : ModuleTable} {ram : Ram} {modules : List Module} :
    table.read? ram = some modules ↔
      (table.count ≠ 0 → ram.covers table.address.toNat table.size = true) ∧
        modules.length = table.count ∧
          ram.HoldsAt table.address.toNat (modules.flatMap Module.encode) := by
  unfold read?
  split
  case isTrue hempty =>
    rw [Option.some_inj, hempty]
    constructor
    · rintro rfl
      exact ⟨fun h => absurd rfl h, rfl, nofun⟩
    · rintro ⟨-, hlen, -⟩
      exact (List.eq_nil_of_length_eq_zero hlen).symm
  case isFalse hcount =>
    rw [Option.map_eq_some_iff]
    constructor
    · rintro ⟨bytes, hread, rfl⟩
      obtain ⟨hcovers, hlen, hholds⟩ := Ram.read?_eq_some_iff.mp hread
      rw [Module.flatMap_encode_decodeTable hlen]
      exact ⟨fun _ => hcovers, Module.length_decodeTable .., hholds⟩
    · rintro ⟨hcovers, hlen, hholds⟩
      refine ⟨modules.flatMap Module.encode, Ram.read?_eq_some_iff.mpr ⟨hcovers hcount, ?_, hholds⟩,
        ?_⟩
      · rw [Module.length_flatMap_encode, hlen, size]
      · rw [← hlen, Module.decodeTable_flatMap_encode]

theorem exists_read? {table : ModuleTable} {ram : Ram}
    (h : table.count ≠ 0 → ram.covers table.address.toNat table.size = true) :
    ∃ modules, table.read? ram = some modules := by
  unfold read?
  split
  case isTrue => exact ⟨_, rfl⟩
  case isFalse hcount => exact ⟨_, by rw [Ram.read?, if_pos (h hcount)]; rfl⟩

end ModuleTable

/-! ## Tables that a structure names -/

namespace Info

variable {info : Info} {ram : Ram} {validation : Validation}

/-- The modules are those of the table that the structure names. -/
structure HasModules (info : Info) (ram : Ram) (modules : List Module) : Prop where
  length : modules.length = info.moduleCount.toNat
  holds : ram.HoldsAt info.moduleTable.toNat (modules.flatMap Module.encode)

/-- The bytes are those of the memory map that the structure names. -/
structure HasMap (info : Info) (ram : Ram) (map : Bytes) : Prop where
  length : map.length = info.mapLength.toNat
  holds : ram.HoldsAt info.mapAddress.toNat map

/-- RAM holds the tables that are believed. A table without records need not lie anywhere. -/
structure TablesIn (info : Info) (ram : Ram) (validation : Validation) : Prop where
  modules : info.flags.has .modules = true ∨ validation = .trusted → info.moduleCount ≠ 0 →
    ram.covers info.moduleTable.toNat (info.moduleCount.toNat * Module.size) = true
  map : info.flags.has .memoryMap = true → info.mapLength ≠ 0 →
    ram.covers info.mapAddress.toNat info.mapLength.toNat = true

theorem HasModules.unique {modules modules' : List Module} (h : info.HasModules ram modules)
    (h' : info.HasModules ram modules') : modules = modules' := by
  have hlen := h.length.trans h'.length.symm
  have hbytes := h.holds.unique h'.holds (by simp only [Module.length_flatMap_encode, hlen])
  rw [← Module.decodeTable_flatMap_encode modules, hbytes, hlen,
    Module.decodeTable_flatMap_encode modules']

theorem HasMap.unique {map map' : Bytes} (h : info.HasMap ram map) (h' : info.HasMap ram map') :
    map = map' :=
  h.holds.unique h'.holds (h.length.trans h'.length.symm)

theorem showsModules_iff :
    info.showsModules validation = true ↔
      info.flags.has .modules = true ∨ validation = .trusted := by
  cases validation <;> simp [showsModules, Validation.isStrict]

/-- A table that is not believed has no records. -/
theorem read?_shownTable_eq_some_iff {modules : List Module} :
    (info.shownTable validation).read? ram = some modules ↔
      (info.flags.has .modules = true ∨ validation = .trusted → info.moduleCount ≠ 0 →
        ram.covers info.moduleTable.toNat (info.moduleCount.toNat * Module.size) = true) ∧
        if info.flags.has .modules = true ∨ validation = .trusted then
          info.HasModules ram modules else modules = [] := by
  rw [ModuleTable.read?_eq_some_iff]
  simp only [shownTable, ModuleTable.size, UInt32.toNat_toUInt64, showsModules_iff]
  split
  case isTrue hbelieved =>
    rw [← UInt32.toNat_inj.ne]
    exact and_congr ⟨fun h _ => h, fun h => h hbelieved⟩
      ⟨fun h => ⟨h.1, h.2⟩, fun h => ⟨h.length, h.holds⟩⟩
  case isFalse hdoubted =>
    constructor
    · rintro ⟨-, hlen, -⟩
      exact ⟨fun h => absurd h hdoubted, List.eq_nil_of_length_eq_zero hlen⟩
    · rintro ⟨-, rfl⟩
      exact ⟨fun h => absurd rfl h, rfl, nofun⟩

/-- Nor has a memory map without its flag. -/
theorem shownMap?_eq_some_iff {map : Bytes} :
    info.shownMap? ram = some map ↔
      (info.flags.has .memoryMap = true → info.mapLength ≠ 0 →
        ram.covers info.mapAddress.toNat info.mapLength.toNat = true) ∧
        if info.flags.has .memoryMap = true then info.HasMap ram map else map = [] := by
  unfold shownMap?
  cases info.flags.has .memoryMap with
  | false => simp
  | true =>
    by_cases hzero : info.mapLength = 0
    · simp only [hzero, Bool.true_and, bne_self_eq_false, Bool.false_eq_true, if_false,
        Option.some_inj, if_true, ne_eq, not_true_eq_false, false_implies, implies_true, true_and]
      constructor
      · rintro rfl
        exact ⟨by rw [hzero]; rfl, nofun⟩
      · intro h
        exact (List.eq_nil_of_length_eq_zero (by rw [h.length, hzero]; rfl)).symm
    · have hread : (true && info.mapLength != 0) = true := by simpa using hzero
      rw [if_pos hread, if_pos rfl, Ram.read?_eq_some_iff]
      exact ⟨fun h => ⟨fun _ _ => h.1, h.2.1, h.2.2⟩,
        fun h => ⟨h.1 rfl hzero, h.2.length, h.2.holds⟩⟩

end Info

/-! ## Views -/

namespace View

variable {ram ram' : Ram} {address : UInt64} {validation : Validation} {view view' : View}
  {info : Info}

/-- The view shows what the structure names as far as it is believed, and nothing else. -/
structure Shows (view : View) (ram : Ram) (validation : Validation) : Prop where
  modules : if view.info.flags.has .modules = true ∨ validation = .trusted then
    view.info.HasModules ram view.modules else view.modules = []
  map : if view.info.flags.has .memoryMap = true then
    view.info.HasMap ram view.map else view.map = []

namespace Shows

theorem hasModules (h : view.Shows ram validation)
    (hbelieved : view.info.flags.has .modules = true ∨ validation = .trusted) :
    view.info.HasModules ram view.modules := by
  have hmodules := h.modules
  rwa [if_pos hbelieved] at hmodules

theorem hasMap (h : view.Shows ram validation) (hflag : view.info.flags.has .memoryMap = true) :
    view.info.HasMap ram view.map := by
  have hmap := h.map
  rwa [if_pos hflag] at hmap

theorem modules_eq_nil (h : view.Shows ram .strict)
    (hflag : view.info.flags.has .modules = false) : view.modules = [] := by
  have hmodules := h.modules
  rwa [if_neg (by simp [hflag])] at hmodules

theorem map_eq_nil (h : view.Shows ram validation)
    (hflag : view.info.flags.has .memoryMap = false) : view.map = [] := by
  have hmap := h.map
  rwa [if_neg (by simp [hflag])] at hmap

/-- The view is that of the tables that the structure names, wherever they are at hand. -/
theorem ofParts_eq (h : view.Shows ram validation) {modules : List Module} {map : Bytes}
    (hmodules : view.info.flags.has .modules = true ∨ validation = .trusted →
      view.info.HasModules ram modules)
    (hmap : view.info.flags.has .memoryMap = true → view.info.HasMap ram map) :
    ofParts view.info modules map validation = view := by
  have hlist : (if view.info.showsModules validation then modules else []) = view.modules := by
    by_cases hbelieved : view.info.flags.has .modules = true ∨ validation = .trusted
    · rw [if_pos (Info.showsModules_iff.mpr hbelieved)]
      exact (hmodules hbelieved).unique (h.hasModules hbelieved)
    · have hshown := h.modules
      rw [if_neg hbelieved] at hshown
      rw [if_neg (mt Info.showsModules_iff.mp hbelieved), hshown]
  have hbytes : (if view.info.flags.has .memoryMap then map else []) = view.map := by
    cases hflag : view.info.flags.has .memoryMap with
    | true => exact (hmap hflag).unique (h.hasMap hflag)
    | false => exact (h.map_eq_nil hflag).symm
  rw [ofParts, hlist, hbytes]

end Shows

/-- A view is read if RAM holds the structure and the tables that are believed. -/
theorem ofRam?_eq_some_iff :
    ofRam? ram address validation = some view ↔
      Info.ofRam? ram address = some view.info ∧ view.info.TablesIn ram validation ∧
        view.Shows ram validation := by
  simp only [ofRam?, Option.bind_eq_bind, Option.bind_eq_some_iff, Option.pure_def,
    Option.some_inj, Info.read?_shownTable_eq_some_iff, Info.shownMap?_eq_some_iff]
  constructor
  · rintro ⟨info, hinfo, modules, ⟨htable, hmodules⟩, map, ⟨hmapIn, hmap⟩, rfl⟩
    have hshows : Shows ⟨info, modules, map⟩ ram validation := ⟨hmodules, hmap⟩
    have hparts : ofParts info modules map validation = ⟨info, modules, map⟩ :=
      hshows.ofParts_eq hshows.hasModules hshows.hasMap
    rw [hparts]
    exact ⟨hinfo, ⟨htable, hmapIn⟩, hshows⟩
  · rintro ⟨hinfo, htables, hshows⟩
    exact ⟨view.info, hinfo, view.modules, ⟨htables.modules, hshows.modules⟩, view.map,
      ⟨htables.map, hshows.map⟩, hshows.ofParts_eq hshows.hasModules hshows.hasMap⟩

/-- There is a view of every structure whose tables lie in RAM. -/
theorem exists_ofRam? (hinfo : Info.ofRam? ram address = some info)
    (htables : info.TablesIn ram validation) :
    ∃ view, ofRam? ram address validation = some view ∧ view.info = info := by
  have hmodules : ∃ modules, (info.shownTable validation).read? ram = some modules := by
    refine ModuleTable.exists_read? fun hcount => ?_
    simp only [Info.shownTable, ModuleTable.size, UInt32.toNat_toUInt64,
      Info.showsModules_iff] at hcount ⊢
    by_cases hbelieved : info.flags.has .modules = true ∨ validation = .trusted
    · rw [if_pos hbelieved] at hcount ⊢
      exact htables.modules hbelieved (mt (congrArg UInt32.toNat) hcount)
    · rw [if_neg hbelieved] at hcount
      exact absurd rfl hcount
  have hmap : ∃ map, info.shownMap? ram = some map := by
    unfold Info.shownMap?
    split
    case isTrue hread =>
      simp only [Bool.and_eq_true, bne_iff_ne] at hread
      exact ⟨_, if_pos (htables.map hread.1 hread.2)⟩
    case isFalse => exact ⟨_, rfl⟩
  obtain ⟨modules, hmodules⟩ := hmodules
  obtain ⟨map, hmap⟩ := hmap
  refine ⟨ofParts info modules map validation, ?_, rfl⟩
  simp only [ofRam?, hinfo, hmodules, hmap, Option.bind_eq_bind, Option.bind_some,
    Option.pure_def]

/-- If the module flag is set, both levels of validation see the same. -/
theorem ofRam?_strict_eq_trusted (hinfo : Info.ofRam? ram address = some info)
    (hflag : info.flags.has .modules = true) :
    ofRam? ram address .strict = ofRam? ram address .trusted := by
  have hshown : info.showsModules .strict = info.showsModules .trusted := by
    rw [Info.showsModules, Info.showsModules, hflag, Bool.true_or, Bool.true_or]
  simp only [ofRam?, hinfo, Option.bind_eq_bind, Option.bind_some, ofParts, Info.shownTable,
    hshown]

end View

/-! ## What is not looked at -/

namespace Info

variable {ram ram' : Ram} {address : UInt64} {info info' : Info}

/-- Where the structure lies. -/
def span (address : UInt64) : Span :=
  ⟨address.toNat, size⟩

/-- The flags of the structure. -/
def flagsField (address : UInt64) : Span :=
  ⟨address.toNat, 4⟩

/-- The fields of the structure that say where its module table lies and how long it is. -/
def moduleFields (address : UInt64) : Span :=
  ⟨address.toNat + 20, 8⟩

/-- The fields of the structure that say where its memory map lies and how long it is. -/
def mapFields (address : UInt64) : Span :=
  ⟨address.toNat + 44, 8⟩

/-- Where the memory map of the structure lies. -/
def mapSpan (info : Info) : Span :=
  ⟨info.mapAddress.toNat, info.mapLength.toNat⟩

theorem eq_decode_of_ofRam? (h : ofRam? ram address = some info) :
    info = decode (ram.read address.toNat size) := by
  obtain ⟨bytes, hread, rfl⟩ := Option.map_eq_some_iff.mp h
  unfold Ram.read? at hread
  split at hread
  case isTrue => rw [Option.some.inj hread]
  case isFalse => cases hread

/-- Words that are read at the same place agree if their bytes do. -/
theorem word32_read_congr {base len offset : Nat} (h : offset + 4 ≤ len)
    (hagree : ∀ a, (Span.mk (base + offset) 4).Holds a → ram'.byte? a = ram.byte? a) :
    (ram'.read base len).word32 offset = (ram.read base len).word32 offset := by
  rw [Bytes.word32, Bytes.word32, Ram.slice_read ram' h, Ram.slice_read ram h,
    Ram.read_congr hagree]

theorem flags_eq_of_agree (hinfo : ofRam? ram address = some info)
    (hinfo' : ofRam? ram' address = some info')
    (hagree : ∀ a, (flagsField address).Holds a → ram'.byte? a = ram.byte? a) :
    info'.flags = info.flags := by
  rw [eq_decode_of_ofRam? hinfo, eq_decode_of_ofRam? hinfo']
  exact congrArg InfoFlags.mk (word32_read_congr (by decide) hagree)

/-- Structures that agree in the fields of the memory map name the same one. -/
theorem map_eq_of_agree (hinfo : ofRam? ram address = some info)
    (hinfo' : ofRam? ram' address = some info')
    (hagree : ∀ a, (mapFields address).Holds a → ram'.byte? a = ram.byte? a) :
    info'.mapLength = info.mapLength ∧ info'.mapAddress = info.mapAddress := by
  rw [eq_decode_of_ofRam? hinfo, eq_decode_of_ofRam? hinfo']
  constructor
  · refine word32_read_congr (by decide) fun a ha => hagree a ?_
    simp only [Span.Holds, mapFields] at ha ⊢
    omega
  · refine word32_read_congr (by decide) fun a ha => hagree a ?_
    simp only [Span.Holds, mapFields] at ha ⊢
    omega

theorem HasMap.eq_of_agree {map map' : Bytes} (h : info.HasMap ram map)
    (h' : info'.HasMap ram' map') (hlength : info'.mapLength = info.mapLength)
    (haddress : info'.mapAddress = info.mapAddress)
    (hagree : ∀ a, info.mapSpan.Holds a → ram'.byte? a = ram.byte? a) : map' = map := by
  have hholds : ram'.HoldsAt info'.mapAddress.toNat map := by
    rw [haddress]
    refine h.holds.congr fun a ha => hagree a ?_
    rw [mapSpan, ← h.length]
    exact ha
  exact h'.holds.unique hholds (by rw [h'.length, h.length, hlength])

end Info

namespace View

variable {ram ram' : Ram} {address : UInt64} {view view' : View}

/-- Without the module flag a strict view depends on the flags, the memory map and the fields that
say where it lies. -/
theorem tables_eq_of_agree (hview : ofRam? ram address .strict = some view)
    (hview' : ofRam? ram' address .strict = some view')
    (hmodules : view.info.flags.has .modules = false)
    (hmodules' : view'.info.flags.has .modules = false)
    (hflag : view'.info.flags.has .memoryMap = view.info.flags.has .memoryMap)
    (hagree : view.info.flags.has .memoryMap = true → ∀ a,
      (Info.mapFields address).Holds a ∨ view.info.mapSpan.Holds a →
        ram'.byte? a = ram.byte? a) :
    view'.modules = view.modules ∧ view'.map = view.map := by
  obtain ⟨hinfo, -, hshows⟩ := ofRam?_eq_some_iff.mp hview
  obtain ⟨hinfo', -, hshows'⟩ := ofRam?_eq_some_iff.mp hview'
  refine ⟨by rw [hshows.modules_eq_nil hmodules, hshows'.modules_eq_nil hmodules'], ?_⟩
  cases hmap : view.info.flags.has .memoryMap with
  | false => rw [hshows.map_eq_nil hmap, hshows'.map_eq_nil (hflag.trans hmap)]
  | true =>
    obtain ⟨hlength, haddress⟩ :=
      Info.map_eq_of_agree hinfo hinfo' fun a ha => hagree hmap a (.inl ha)
    exact (hshows.hasMap hmap).eq_of_agree (hshows'.hasMap (hflag.trans hmap)) hlength haddress
      fun a ha => hagree hmap a (.inr ha)

/-- There is a view of every structure whose tables lie in RAM. It shows the modules of the table
that the structure names if its flag is set or the bootloader is trusted, and the memory map if its
flag is set; it is also the view of these tables if they are at hand. With the module flag both
levels of validation see the same. Without it, a strict view shows the same of two RAMs that agree
in the structure, apart from the fields of the module table, and in the memory map. If neither has a
memory map, they need not agree in anything else. -/
theorem ofRam?_shows (ram : Ram) (address : UInt64) :
    (∀ validation info, Info.ofRam? ram address = some info → info.TablesIn ram validation →
      ∃ view, ofRam? ram address validation = some view ∧ view.info = info ∧
        view.Shows ram validation ∧
        ∀ modules map,
          (info.flags.has .modules = true ∨ validation = .trusted →
            info.HasModules ram modules) →
          (info.flags.has .memoryMap = true → info.HasMap ram map) →
          ofParts info modules map validation = view) ∧
    (∀ info, Info.ofRam? ram address = some info → info.flags.has .modules = true →
      ofRam? ram address .strict = ofRam? ram address .trusted) ∧
    ∀ ram' view view', ofRam? ram address .strict = some view →
      ofRam? ram' address .strict = some view' →
      view.info.flags.has .modules = false → view'.info.flags.has .modules = false →
      (view.info.flags.has .memoryMap = false → view'.info.flags.has .memoryMap = false) →
      (view.info.flags.has .memoryMap = true → ∀ a,
        (Info.span address).Holds a ∧ ¬(Info.moduleFields address).Holds a ∨
          view.info.mapSpan.Holds a → ram'.byte? a = ram.byte? a) →
      view'.modules = view.modules ∧ (∀ i, view'.module? i = view.module? i) ∧
        view'.map = view.map ∧ view'.mapEntries = view.mapEntries ∧
        view'.available = view.available := by
  refine ⟨fun validation info hinfo htables => ?_, fun _ => ofRam?_strict_eq_trusted, ?_⟩
  · obtain ⟨view, hview, rfl⟩ := exists_ofRam? hinfo htables
    obtain ⟨-, -, hshows⟩ := ofRam?_eq_some_iff.mp hview
    exact ⟨view, hview, rfl, hshows, fun _ _ => hshows.ofParts_eq⟩
  · intro ram' view view' hview hview' hmodules hmodules' hclear hagree
    have hflag : view'.info.flags.has .memoryMap = view.info.flags.has .memoryMap := by
      cases hmap : view.info.flags.has .memoryMap with
      | false => exact hclear hmap
      | true =>
        have hflags : view'.info.flags = view.info.flags :=
          Info.flags_eq_of_agree (ofRam?_eq_some_iff.mp hview).1 (ofRam?_eq_some_iff.mp hview').1
            fun a ha => hagree hmap a <| .inl (by
              simp only [Span.Holds, Info.flagsField, Info.span, Info.moduleFields, Info.size]
                at ha ⊢
              omega)
        rw [hflags, hmap]
    have hsame := tables_eq_of_agree hview hview' hmodules hmodules' hflag fun hmap a ha =>
      hagree hmap a <| ha.imp_left fun hfield => by
        simp only [Span.Holds, Info.mapFields, Info.span, Info.moduleFields, Info.size]
          at hfield ⊢
        omega
    obtain ⟨hlist, hbytes⟩ := hsame
    refine ⟨hlist, fun i => ?_, hbytes, ?_, ?_⟩
    · rw [module?, module?, hlist]
    · rw [mapEntries, mapEntries, hbytes]
    · rw [available, available, hbytes]

/-- A structure without the module flag that names a module table far outside of RAM. Its memory map
starts within the structure and ends behind it. -/
def unlisted (moduleCount : UInt32) : Info :=
  { Info.empty with
    flags := ⟨0x40⟩
    moduleCount := moduleCount
    moduleTable := 0xFFFF_FFF0
    mapLength := 24
    mapAddress := 0x1070 }

/-- RAM with the structure and the rest of its memory map. -/
def unlistedRam (moduleCount : UInt32) : Ram :=
  ⟨0x1000, (unlisted moduleCount).encode ++ Bytes.zeros 20⟩

/-- Strict views show the same whether the structure states no modules or seven, for which there is
no trusted view. -/
theorem ofRam?_shows_unlisted :
    ∃ view view', ofRam? (unlistedRam 0) 0x1000 .strict = some view ∧
      ofRam? (unlistedRam 7) 0x1000 .strict = some view' ∧
      ofRam? (unlistedRam 7) 0x1000 .trusted = none ∧
      view.map.length = 24 ∧ view'.info ≠ view.info ∧
      view'.modules = view.modules ∧ view'.map = view.map ∧ view'.available = view.available := by
  have hinfo : Info.ofRam? (unlistedRam 0) 0x1000 = some (unlisted 0) := by decide +kernel
  have hinfo' : Info.ofRam? (unlistedRam 7) 0x1000 = some (unlisted 7) := by decide +kernel
  have htables : (unlisted 0).TablesIn (unlistedRam 0) .strict :=
    ⟨by decide, fun _ _ => by decide +kernel⟩
  have htables' : (unlisted 7).TablesIn (unlistedRam 7) .strict :=
    ⟨by decide, fun _ _ => by decide +kernel⟩
  obtain ⟨hviews, -, hsame⟩ := ofRam?_shows (unlistedRam 0) 0x1000
  obtain ⟨view, hview, hviewInfo, hshows, -⟩ := hviews .strict _ hinfo htables
  obtain ⟨view', hview', hviewInfo', -⟩ :=
    (ofRam?_shows (unlistedRam 7) 0x1000).1 .strict _ hinfo' htables'
  have hwrite : unlistedRam 7 = (unlistedRam 0).write 0x1014 (Bytes.ofUInt32 7) := by
    decide +kernel
  obtain ⟨hmodules, -, hmap, -, havailable⟩ := hsame _ view view' hview hview'
    (by rw [hviewInfo]; decide) (by rw [hviewInfo']; decide)
    (by rw [hviewInfo, hviewInfo']; decide) fun _ a ha => by
      rw [hviewInfo] at ha
      rw [hwrite, Ram.byte?_write (by decide +kernel), if_neg]
      simp only [Span.Holds, Info.span, Info.moduleFields, Info.mapSpan, Info.size,
        Bytes.length_ofUInt32] at ha ⊢
      have hstart : (0x1000 : UInt64).toNat = 0x1000 := rfl
      have hmapStart : (unlisted 0).mapAddress.toNat = 0x1070 := rfl
      omega
  refine ⟨view, view', hview, hview', by decide +kernel, ?_, ?_, hmodules, hmap, havailable⟩
  · rw [(hshows.hasMap (by rw [hviewInfo]; decide)).length, hviewInfo]
    rfl
  · rw [hviewInfo, hviewInfo']
    decide +kernel

/-- A structure whose memory map is a record of type 1 that starts at its second field. The number
of modules is part of the record, and there is no module flag. -/
def selfMapped (moduleCount : UInt32) : Info :=
  { Info.empty with
    flags := ⟨0x40⟩
    memLower := 20
    memUpper := 0x10_0000
    commandLine := 0x1000
    moduleCount := moduleCount
    moduleTable := 1
    mapLength := 24
    mapAddress := 0x1004 }

/-- RAM that holds the structure alone. -/
def selfMappedRam (moduleCount : UInt32) : Ram :=
  ⟨0x1000, (selfMapped moduleCount).encode⟩

/-- The record that the structure spells. -/
def selfRecord (moduleCount : UInt32) : MemoryMap.Record where
  base := 0x10_0000
  length := 0x1000 + moduleCount.toUInt64 * 0x1_0000_0000
  number := 1
  filler := []
  fits := by decide

/-- The structure and its record. -/
def selfMappedView (moduleCount : UInt32) : View :=
  ⟨selfMapped moduleCount, [], (selfRecord moduleCount).encode⟩

theorem available_selfMappedView (moduleCount : UInt32) :
    (selfMappedView moduleCount).available = [(selfRecord moduleCount).region] := by
  have h := MemoryMap.available_encodeAll [selfRecord moduleCount]
  rwa [MemoryMap.encodeAll, List.flatMap_singleton] at h

/-- The number of modules, which a strict view does not look at, can be part of the memory map that
it shows. -/
theorem strict_map_over_moduleCount :
    ofRam? (selfMappedRam 0) 0x1000 .strict = some (selfMappedView 0) ∧
      ofRam? (selfMappedRam 1) 0x1000 .strict = some (selfMappedView 1) ∧
      (selfMapped 0).flags.has .modules = false ∧ (selfMapped 1).flags.has .modules = false ∧
      (∀ a, (selfMappedRam 1).byte? a ≠ (selfMappedRam 0).byte? a →
        (Info.moduleFields 0x1000).Holds a) ∧
      (selfMappedView 1).map ≠ (selfMappedView 0).map ∧
      (selfMappedView 1).available ≠ (selfMappedView 0).available := by
  refine ⟨by decide +kernel, by decide +kernel, by decide, by decide, fun a ha => ?_,
    by decide +kernel, ?_⟩
  · have hwrite : selfMappedRam 1 = (selfMappedRam 0).write 0x1014 (Bytes.ofUInt32 1) := by
      decide +kernel
    rw [hwrite, Ram.byte?_write (by decide +kernel)] at ha
    split at ha
    case isTrue hin => exact ⟨hin.1, Nat.lt_of_lt_of_le hin.2 (by decide)⟩
    case isFalse => exact absurd rfl ha
  · rw [available_selfMappedView, available_selfMappedView]
    decide

end View

end Chainload.Multiboot
