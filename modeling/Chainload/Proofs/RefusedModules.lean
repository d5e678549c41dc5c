import Chainload.Proofs.Confinement
import Chainload.Proofs.LittleEndian

/-!
# When a module is not loaded

Before a module is loaded it may be missing, too large for the scratch region, or refused by memory.
`Setup.placeModule_stages` says exactly when, for memory that is reached in either way; in all these
cases it stays as it was. What is staged is the first module of the list (`Modules.extents`), with
as many bytes as there are addresses between its start and its stop.

Memory looks at the scratch region twice, for the copy and for the view of it. Plain pointers pass
over an empty copy without looking at its range, so the view may still be refused after it
(`Setup.StageEnd.unviewed`); but then nothing was copied. Bytes that were copied can be viewed
(`Memory.view_of_move`), since what memory grants is not changed by a write, wherever that goes
(`Memory.sameShape_write`).
-/

namespace Chainload

open Elf

/-! ## Writing anywhere -/

namespace Ram

/-- An address outside the range of a write keeps its byte. -/
theorem byte?_write_of_not_holds {ram : Ram} {address a : Nat} {patch : Bytes}
    (ha : ¬(Span.mk address patch.length).Holds a) :
    (ram.write address patch).byte? a = ram.byte? a := by
  rcases Nat.le_total ram.size (address - ram.base.toNat) with hbehind | hstart
  · rw [write_of_size_le patch hbehind]
  obtain ⟨inside, hwrite, hfits, hpart⟩ := write_inside patch hstart
  rw [hwrite]
  unfold byte?
  by_cases hbase : ram.base.toNat ≤ a
  · have hout : ¬(address - ram.base.toNat ≤ a - ram.base.toNat ∧
        a - ram.base.toNat < address - ram.base.toNat + inside.length) := by
      simp only [Span.Holds] at ha
      omega
    rw [if_pos hbase, if_pos hbase, Bytes.getElem?_overlay hfits, if_neg hout]
  · rw [if_neg hbase, if_neg hbase]

end Ram

namespace Memory

variable {memory after : Memory} {target source len : UInt64}

theorem sameShape_write (memory : Memory) (target : UInt64) (bytes : Bytes) :
    SameShape memory (memory.write target bytes) :=
  ⟨rfl, rfl, Ram.size_write ..⟩

/-- A write changes nothing outside its range. -/
theorem keepsOutside_write (memory : Memory) (target : UInt64) (bytes : Bytes) :
    KeepsOutside (Span.mk target.toNat bytes.length).Holds memory (memory.write target bytes) where
  toSameShape := sameShape_write memory target bytes
  byte _ ha := Ram.byte?_write_of_not_holds ha

/-- What memory grants depends on its shape alone. -/
theorem SameShape.admits (h : SameShape memory after) (address : UInt64) (len : Nat) :
    after.admits address len = memory.admits address len := by
  simp only [Memory.admits, h.mapping, h.covers]

/-! ## Copying and then viewing -/

theorem refusal?_eq_none_iff {address : UInt64} {len : Nat} :
    memory.refusal? address len = none ↔ memory.admits address len = true := by
  simp [refusal?]

/-- A move that memory performs was passed over, or both of its ranges are admitted and it was
made. -/
theorem move_cases (h : memory.perform (.move target source len) = .ok after) :
    memory.passesOver len.toNat = true ∧ after = memory ∨
      memory.admits target len.toNat = true ∧
        after = memory.write target (memory.ram.read source.toNat len.toNat) := by
  simp only [perform, move] at h
  split at h
  case isTrue hpassed =>
    cases h
    exact Or.inl ⟨hpassed, rfl⟩
  case isFalse =>
    split at h
    case h_1 => cases h
    case h_2 hadmitted =>
      cases h
      exact Or.inr ⟨refusal?_eq_none_iff.mp (Option.or_eq_none_iff.mp hadmitted).1, rfl⟩

/-- A move changes nothing outside its target. -/
theorem keepsOutside_move (h : memory.perform (.move target source len) = .ok after) :
    KeepsOutside (Span.mk target.toNat len.toNat).Holds memory after := by
  rcases move_cases h with ⟨-, rfl⟩ | ⟨-, rfl⟩
  · exact .refl _ _
  · have hkept := keepsOutside_write memory target (memory.ram.read source.toNat len.toNat)
    rwa [Ram.length_read] at hkept

/-- A move of no bytes changes nothing. -/
theorem eq_of_move_zero (h : memory.perform (.move target source 0) = .ok after) :
    after = memory := by
  rcases move_cases h with ⟨-, rfl⟩ | ⟨-, rfl⟩
  · rfl
  · have hnil : memory.ram.read source.toNat (0 : UInt64).toNat = [] :=
      List.eq_nil_of_length_eq_zero (Ram.length_read ..)
    rw [hnil, write_nil]

/-- Bytes that were copied can be viewed where they went. -/
theorem view_of_move (hlen : 0 < len) (h : memory.perform (.move target source len) = .ok after) :
    after.perform (.view target len) = .ok after := by
  have hshape := (keepsOutside_move h).toSameShape
  have hpositive : len.toNat ≠ 0 := Nat.ne_of_gt (UInt64.lt_iff_toNat_lt.mp hlen)
  rcases move_cases h with ⟨hpassed, -⟩ | ⟨hadmitted, -⟩
  · simp [passesOver, hpositive] at hpassed
  · rw [← hshape.admits] at hadmitted
    simp only [perform, view, refusal?_eq_none_iff.mpr hadmitted]

/-- Nothing is copied to address zero without a look at it; the view is refused. -/
example : Memory.perform ⟨.identity, ⟨0, [1]⟩⟩ (.move 0 5 0) = .ok ⟨.identity, ⟨0, [1]⟩⟩ ∧
    Memory.perform ⟨.identity, ⟨0, [1]⟩⟩ (.view 0 0) = .error ⟨0, 0⟩ := by
  decide

end Memory

namespace Chain

open Chainload.Action Memory Multiboot

/-! ## The first module -/

namespace Modules

/-- The addresses of the modules, in the order of the list. A record of a table has 16 bytes. The
first four spell where the module starts, and the next four where it stops. -/
def extents (modules : Modules) (ram : Ram) : List Extent :=
  match modules with
  | .listed extents => extents
  | .table entries =>
    (List.range entries.count).map fun i =>
      let place := entries.address.toNat + 16 * i
      ⟨UInt64.ofNat (Bytes.toNat (ram.read place 4)),
        UInt64.ofNat (Bytes.toNat (ram.read (place + 4) 4))⟩

/-- A word of a record is what the RAM spells there. -/
theorem word32_read {ram : Ram} {place len offset : Nat} (h : offset + 4 ≤ len) :
    ((ram.read place len).word32 offset).toUInt64 =
      UInt64.ofNat (Bytes.toNat (ram.read (place + offset) 4)) := by
  have hbound := Bytes.toNat_lt (ram.read (place + offset) 4)
  rw [Ram.length_read] at hbound
  apply UInt64.toNat_inj.mp
  rw [UInt32.toNat_toUInt64, Bytes.toNat_word32, Ram.slice_read ram h, UInt64.toNat_ofNat']
  omega

theorem extent_decode (ram : Ram) (place : Nat) :
    (Module.decode (ram.read place Module.size)).extent =
      ⟨UInt64.ofNat (Bytes.toNat (ram.read place 4)),
        UInt64.ofNat (Bytes.toNat (ram.read (place + 4) 4))⟩ := by
  have hstart : 0 + 4 ≤ Module.size := by decide
  have hstop : 4 + 4 ≤ Module.size := by decide
  rw [Module.extent, Module.decode, word32_read hstart, word32_read hstop, Nat.add_zero]

/-- What is asked for as the first module is the first one. -/
theorem first?_eq_head? (modules : Modules) (ram : Ram) :
    modules.first? ram = (modules.extents ram).head? := by
  cases modules with
  | listed extents => rfl
  | table entries =>
    rw [first?, ModuleTable.first?, extents]
    cases entries.count with
    | zero => rfl
    | succ count =>
      rw [if_neg (Nat.succ_ne_zero count), Option.map_some, extent_decode,
        List.range_succ_eq_map]
      rfl

end Modules

/-! ## What is not staged -/

namespace Setup

variable {setup : Setup} {modules : Modules} {extent : Extent} {machine left : Machine}
  {image : Image} {fault : Fault}

/-- If a module is not staged, memory stays as it was. -/
theorem memory_of_stage_error (h : setup.stage extent machine = .error fault left) :
    left.memory = machine.memory := by
  cases setup.stageEnd extent machine with
  | noRoom _ run =>
    cases run.symm.trans h
    rfl
  | unmoved _ _ run leaves =>
    cases run.symm.trans h
    exact leaves
  | unviewed _ moved refused run leaves =>
    cases run.symm.trans h
    have hempty : extent.length = 0 := by
      by_contra hlen
      have hview := view_of_move (UInt64.pos_iff_ne_zero.mpr hlen) moved
      cases hview.symm.trans refused
    rw [copy, hempty] at moved
    exact leaves.trans (eq_of_move_zero moved)
  | staged _ _ run _ => cases run.symm.trans h

/-! ## What comes of the first module -/

section First

variable (hfirst : modules.first? machine.memory.ram = some extent)
include hfirst

theorem placeModule_of_stage_error (h : setup.stage extent machine = .error fault left) :
    setup.placeModule modules machine = .error fault left :=
  (placeModule_of_some hfirst).trans (bind_of_error h)

theorem placeModule_of_stage_ok (h : setup.stage extent machine = .ok image left) :
    setup.placeModule modules machine = setup.load image left :=
  (placeModule_of_some hfirst).trans (bind_of_ok h)

theorem placeModule_of_noRoom (hroom : ¬setup.HasRoom extent) :
    setup.placeModule modules machine =
      .error (.noRoom extent.length setup.scratch.len) machine :=
  have ⟨hstrict, hless⟩ := not_hasRoom_iff.mp hroom
  placeModule_of_stage_error hfirst (stage_of_noRoom hstrict hless)

/-- Whatever else goes wrong with a module that there is room for, goes wrong in loading it. -/
theorem noRoom_of_placeModule (h : (setup.placeModule modules).answer machine = .error fault)
    (hfault : ∀ cause, fault ≠ .load cause) :
    ¬setup.HasRoom extent ∧ fault = .noRoom extent.length setup.scratch.len := by
  obtain ⟨left, hplace⟩ := error_of_answer h
  cases setup.stageEnd extent machine with
  | noRoom room run =>
    cases (placeModule_of_stage_error hfirst run).symm.trans hplace
    exact ⟨room, rfl⟩
  | unmoved _ _ run _ =>
    cases (placeModule_of_stage_error hfirst run).symm.trans hplace
    exact absurd rfl (hfault _)
  | unviewed _ _ _ run _ =>
    cases (placeModule_of_stage_error hfirst run).symm.trans hplace
    exact absurd rfl (hfault _)
  | staged _ _ run _ =>
    have hload := (placeModule_of_stage_ok hfirst run).symm.trans hplace
    obtain ⟨cause, -, rfl⟩ := mapError_eq_error_iff.mp hload
    exact absurd rfl (hfault cause)

end First

/-- The first module is too large, or its `n` bytes are copied to the scratch region and loaded from
there. -/
structure StagesFirst (setup : Setup) (modules : Modules) (first : Extent) (n : UInt64)
    (machine : Machine) : Prop where
  /-- There is a module, and nothing says otherwise. -/
  present : (setup.placeModule modules).answer machine ≠ .error .noModule
  /-- Only a strict chain finds a module too large, and only one that is. -/
  tooLarge : ∀ len capacity,
    (setup.placeModule modules).answer machine = .error (.noRoom len capacity) ↔
      (setup.loader.validation.isStrict = true ∧ setup.scratch.len < n) ∧
        len = n ∧ capacity = setup.scratch.len
  /-- Of a module that is too large nothing is copied. -/
  tooLarge_keeps : ∀ len capacity,
    (setup.placeModule modules).answer machine = .error (.noRoom len capacity) →
      (setup.placeModule modules).memoryAfter machine = machine.memory
  /-- What stops the staging stops the chain, and memory stays as it was. -/
  unstaged : ∀ fault left, setup.stage first machine = .error fault left →
    setup.placeModule modules machine = .error fault left ∧ left.memory = machine.memory
  /-- A copy that memory refuses is reported as it was refused. -/
  unmoved : (setup.loader.validation.isStrict = true → n ≤ setup.scratch.len) → ∀ range,
    machine.memory.perform (.move setup.scratch.start first.start n) = .error range →
      (setup.placeModule modules).answer machine = .error (.load (.memory range)) ∧
        (setup.placeModule modules).memoryAfter machine = machine.memory
  /-- A copy of at least one byte can be viewed, and the view is loaded. -/
  viewed : (setup.loader.validation.isStrict = true → n ≤ setup.scratch.len) → ∀ memory,
    machine.memory.perform (.move setup.scratch.start first.start n) = .ok memory → 0 < n →
      memory.perform (.view setup.scratch.start n) = .ok memory ∧
        ∃ staged : Machine, staged.memory = memory ∧
          setup.stage first machine = .ok (.view setup.scratch.start n) staged ∧
          setup.placeModule modules machine = setup.load (.view setup.scratch.start n) staged
  /-- A strict chain copies to the scratch region. -/
  confined : setup.loader.validation.isStrict = true → n ≤ setup.scratch.len → ∀ memory,
    machine.memory.perform (.move setup.scratch.start first.start n) = .ok memory →
      KeepsOutside (setup.layout.layout.Holds .scratch) machine.memory memory

theorem stagesFirst (setup : Setup) (hfirst : modules.first? machine.memory.ram = some extent) :
    setup.StagesFirst modules extent extent.length machine where
  present h := nomatch (noRoom_of_placeModule hfirst h nofun).2
  tooLarge len capacity := by
    rw [← not_hasRoom_iff]
    constructor
    · intro h
      obtain ⟨hroom, hfault⟩ := noRoom_of_placeModule hfirst h nofun
      cases hfault
      exact ⟨hroom, rfl, rfl⟩
    · rintro ⟨hroom, rfl, rfl⟩
      exact answer_of_error (placeModule_of_noRoom hfirst hroom)
  tooLarge_keeps len capacity h := by
    obtain ⟨hroom, -⟩ := noRoom_of_placeModule hfirst h nofun
    exact memoryAfter_of_error (placeModule_of_noRoom hfirst hroom)
  unstaged fault left h := ⟨placeModule_of_stage_error hfirst h, memory_of_stage_error h⟩
  unmoved hroom range hrefused := by
    cases setup.stageEnd extent machine with
    | noRoom room _ => exact absurd hroom room
    | unmoved _ refused run leaves =>
      cases refused.symm.trans hrefused
      have hplace := placeModule_of_stage_error hfirst run
      exact ⟨answer_of_error hplace, (memoryAfter_of_error hplace).trans leaves⟩
    | unviewed _ moved _ _ _ => cases moved.symm.trans hrefused
    | staged _ moved _ _ => cases moved.symm.trans hrefused
  viewed hroom memory hmoved hlen := by
    have hview : memory.perform (setup.viewCopy extent) = .ok memory := view_of_move hlen hmoved
    refine ⟨hview, ?_⟩
    cases setup.stageEnd extent machine with
    | noRoom room _ => exact absurd hroom room
    | unmoved _ refused _ _ => cases refused.symm.trans hmoved
    | unviewed _ moved refused _ _ =>
      cases moved.symm.trans hmoved
      cases refused.symm.trans hview
    | staged _ moved run leaves =>
      cases moved.symm.trans hmoved
      exact ⟨_, leaves, run, placeModule_of_stage_ok hfirst run⟩
  confined _ hroom memory hmoved :=
    (keepsOutside_move hmoved).mono fun _ ha => stagedRange_holds hroom ha

/-- Either there is no module, and the chain says so and leaves memory as it was; or there is a
first one, which is found too large or staged. It has as many bytes as lie between its start and its
stop, none if it stops before it starts. -/
theorem placeModule_stages (setup : Setup) (modules : Modules) (machine : Machine) :
    (modules.extents machine.memory.ram = [] ∧
        (setup.placeModule modules).answer machine = .error .noModule ∧
        (setup.placeModule modules).memoryAfter machine = machine.memory) ∨
      ∃ first rest n, modules.extents machine.memory.ram = first :: rest ∧
        n.toNat = first.stop.toNat - first.start.toNat ∧
        setup.StagesFirst modules first n machine := by
  have hfirst := modules.first?_eq_head? machine.memory.ram
  cases hextents : modules.extents machine.memory.ram with
  | nil =>
    rw [hextents] at hfirst
    have hplace : setup.placeModule modules machine = .error .noModule machine :=
      placeModule_of_none hfirst
    exact Or.inl ⟨rfl, answer_of_error hplace, memoryAfter_of_error hplace⟩
  | cons first rest =>
    rw [hextents] at hfirst
    exact Or.inr ⟨first, rest, first.length, rfl, first.toNat_length, stagesFirst setup hfirst⟩

end Setup

end Chain

end Chainload
