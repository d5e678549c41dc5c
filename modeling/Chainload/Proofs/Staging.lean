import Chainload.Chain.Placement
import Chainload.Elf.Draft
import Chainload.Proofs.ViewedLoad

/-!
# Staging a module

A module is copied to the scratch region and loaded through a view of the copy. `Setup.StageEnd`
lists the ways in which this ends, for memory that is reached in either way; behind a window
`Setup.stage_cases` says when the copy is made and what it leaves: the bytes that the module had
before the call, also if module and copy overlap.

If no segment of the module is placed on the copy, the load does what it would do with the module
as a file of its own (`Setup.placeModule_agrees_with_file`). Nothing else is asked of the module: it
may overlap the scratch region and the addresses that its own segments are loaded to.
-/

namespace Chainload

open Elf

/-- The bytes of a module as the RAM holds them. -/
def Multiboot.Extent.bytes (extent : Multiboot.Extent) (ram : Ram) : Bytes :=
  ram.read extent.start.toNat extent.length.toNat

theorem Multiboot.Extent.length_bytes (extent : Multiboot.Extent) (ram : Ram) :
    (extent.bytes ram).length = extent.length.toNat :=
  ram.length_read _ _

namespace Chain.Setup

open Chainload.Action Memory Multiboot

/-- Where the copy of a module goes. -/
def stagedRange (setup : Setup) (extent : Extent) : Span :=
  ⟨setup.scratch.start.toNat, extent.length.toNat⟩

variable {setup : Setup} {modules : Modules} {extent : Extent} {machine after : Machine}
  {image : Image} {fault : Fault}

/-! ## Making the copy -/

/-- Memory after a module was copied. -/
def memoryStaged (setup : Setup) (extent : Extent) (memory : Memory) : Memory :=
  memory.write setup.scratch.start (extent.bytes memory.ram)

theorem overwritten_memoryStaged {memory : Memory}
    (hstaged : memory.ram.covers setup.scratch.start.toNat extent.length.toNat = true) :
    Overwritten memory ((extent.bytes memory.ram).at? setup.scratch.start.toNat)
      (setup.memoryStaged extent memory) :=
  .write (by rw [extent.length_bytes, hstaged])

/-- The copy reads as the module did. -/
theorem read_memoryStaged {memory : Memory}
    (hstaged : memory.ram.covers setup.scratch.start.toNat extent.length.toNat = true) :
    (setup.memoryStaged extent memory).ram.read setup.scratch.start.toNat extent.length.toNat =
      extent.bytes memory.ram := by
  have hread := Ram.read_write_self (show memory.ram.covers setup.scratch.start.toNat
    (extent.bytes memory.ram).length = true by rw [extent.length_bytes, hstaged])
  rwa [extent.length_bytes] at hread

/-- Whether the module is staged: a strict chain needs room for it in the scratch area. -/
def HasRoom (setup : Setup) (extent : Extent) : Prop :=
  setup.loader.validation.isStrict = true → extent.length ≤ setup.scratch.len

theorem stage_of_noRoom (hstrict : setup.loader.validation.isStrict = true)
    (hroom : setup.scratch.len < extent.length) :
    setup.stage extent machine = .error (.noRoom extent.length setup.scratch.len) machine := by
  simp only [stage, hstrict, hroom, decide_true, Bool.and_true, if_true]
  rfl

/-- With room for it, the copy is a move and a view. -/
theorem stage_of_room (machine : Machine) (hroom : setup.HasRoom extent) :
    ∃ noted : Machine, noted.memory = machine.memory ∧ setup.stage extent machine =
      (request (.move setup.scratch.start extent.start extent.length) >>= fun _ =>
        request (.view setup.scratch.start extent.length) >>= fun _ =>
          pure (.view setup.scratch.start extent.length)) noted := by
  have hno : (setup.loader.validation.isStrict &&
      decide (setup.scratch.len < extent.length)) = false := by
    cases hstrict : setup.loader.validation.isStrict with
    | false => rfl
    | true => simpa using hroom hstrict
  simp only [stage, hno, Bool.false_eq_true, if_false]
  refine ⟨_, ?_, bind_of_ok (log_apply _ _ _ machine)⟩
  rfl

theorem request_of_perform {access : Request} {memory : Memory}
    (h : machine.memory.perform access = .ok memory) :
    request access machine =
      .ok () { machine with memory := memory, requests := machine.requests ++ [access] } :=
  mapError_of_ok (request_of_ok h)

theorem request_of_refused {access : Request} {range : OutOfRange}
    (h : machine.memory.perform access = .error range) :
    request access machine =
      .error (.load (.memory range)) { machine with requests := machine.requests ++ [access] } :=
  mapError_of_error (request_of_error h)

/-! ## How staging ends -/

/-- The copy of a module to the scratch region. -/
def copy (setup : Setup) (extent : Extent) : Request :=
  .move setup.scratch.start extent.start extent.length

/-- The view of the copy. -/
def viewCopy (setup : Setup) (extent : Extent) : Request :=
  .view setup.scratch.start extent.length

/-- The ways in which the staging of a module ends. -/
inductive StageEnd (setup : Setup) (extent : Extent) (machine : Machine) : Prop
  | noRoom (room : ¬setup.HasRoom extent)
      (run : setup.stage extent machine =
        .error (.noRoom extent.length setup.scratch.len) machine)
  | unmoved {range left} (room : setup.HasRoom extent)
      (refused : machine.memory.perform (setup.copy extent) = .error range)
      (run : setup.stage extent machine = .error (.load (.memory range)) left)
      (leaves : left.memory = machine.memory)
  | unviewed {memory range left} (room : setup.HasRoom extent)
      (moved : machine.memory.perform (setup.copy extent) = .ok memory)
      (refused : memory.perform (setup.viewCopy extent) = .error range)
      (run : setup.stage extent machine = .error (.load (.memory range)) left)
      (leaves : left.memory = memory)
  | staged {memory left} (room : setup.HasRoom extent)
      (moved : machine.memory.perform (setup.copy extent) = .ok memory)
      (run : setup.stage extent machine = .ok (.view setup.scratch.start extent.length) left)
      (leaves : left.memory = memory)

theorem not_hasRoom_iff : ¬setup.HasRoom extent ↔
    setup.loader.validation.isStrict = true ∧ setup.scratch.len < extent.length := by
  rw [HasRoom, Classical.not_imp, UInt64.not_le]

/-- A view does not change memory. -/
theorem eq_of_viewCopy {memory after : Memory}
    (h : memory.perform (setup.viewCopy extent) = .ok after) : after = memory := by
  simp only [viewCopy, perform, view] at h
  split at h
  · cases h
  · cases h
    rfl

theorem stageEnd (setup : Setup) (extent : Extent) (machine : Machine) :
    setup.StageEnd extent machine := by
  by_cases hroom : setup.HasRoom extent
  case neg =>
    obtain ⟨hstrict, hless⟩ := not_hasRoom_iff.mp hroom
    exact .noRoom hroom (stage_of_noRoom hstrict hless)
  obtain ⟨noted, hnoted, hstage⟩ := stage_of_room machine hroom
  cases hmove : noted.memory.perform (setup.copy extent) with
  | error range =>
    have hrefused : machine.memory.perform (setup.copy extent) = .error range := hnoted ▸ hmove
    exact .unmoved hroom hrefused (hstage.trans (bind_of_error (request_of_refused hmove))) hnoted
  | ok memory =>
    have hmoved : machine.memory.perform (setup.copy extent) = .ok memory := hnoted ▸ hmove
    have hviewing := hstage.trans (bind_of_ok (request_of_perform hmove))
    cases hview : memory.perform (setup.viewCopy extent) with
    | error range =>
      refine .unviewed hroom hmoved hview
        (hviewing.trans (bind_of_error (request_of_refused hview))) ?_
      rfl
    | ok viewed =>
      obtain rfl := eq_of_viewCopy hview
      refine .staged hroom hmoved (hviewing.trans (bind_of_ok (request_of_perform hview))) ?_
      rfl

section Window

variable (hwindow : machine.memory.mapping = .window)
include hwindow

/-- A copy that there is room for is made if the window covers the module and its copy. -/
theorem stage_of_covers (hroom : setup.HasRoom extent)
    (hstaged : machine.memory.ram.covers setup.scratch.start.toNat extent.length.toNat = true)
    (hsource : machine.memory.ram.covers extent.start.toNat extent.length.toNat = true) :
    ∃ staged : Machine, staged.memory = setup.memoryStaged extent machine.memory ∧
      setup.stage extent machine = .ok (.view setup.scratch.start extent.length) staged := by
  have hmove : machine.memory.perform (setup.copy extent) =
      .ok (setup.memoryStaged extent machine.memory) :=
    perform_move_of_covers hwindow hstaged hsource
  cases setup.stageEnd extent machine with
  | noRoom room _ => exact absurd hroom room
  | unmoved _ refused _ _ => cases refused.symm.trans hmove
  | unviewed _ moved refused _ _ =>
    cases moved.symm.trans hmove
    have hover := overwritten_memoryStaged hstaged
    rw [viewCopy, perform_view (hover.window hwindow), hover.covers, if_pos hstaged] at refused
    cases refused
  | staged _ moved run leaves =>
    cases moved.symm.trans hmove
    exact ⟨_, leaves, run⟩

/-- Either no copy is made, because there is no room for it or memory refuses it, and memory stays
as it was; or the window covers the copy, and it is made. -/
theorem stage_cases (setup : Setup) (extent : Extent) :
    (∃ fault after, setup.stage extent machine = .error fault after ∧
        after.memory = machine.memory ∧
        ((∃ range, fault = .load (.memory range)) ∨
          fault = .noRoom extent.length setup.scratch.len ∧
            setup.scratch.len < extent.length)) ∨
      machine.memory.ram.covers setup.scratch.start.toNat extent.length.toNat = true ∧
        ∃ staged : Machine, staged.memory = setup.memoryStaged extent machine.memory ∧
          setup.stage extent machine = .ok (.view setup.scratch.start extent.length) staged := by
  cases setup.stageEnd extent machine with
  | noRoom room run => exact Or.inl ⟨_, _, run, rfl, Or.inr ⟨rfl, (not_hasRoom_iff.mp room).2⟩⟩
  | unmoved _ _ run leaves => exact Or.inl ⟨_, _, run, leaves, Or.inl ⟨_, rfl⟩⟩
  | unviewed room moved _ _ _ =>
    obtain ⟨hstaged, hsource⟩ := covers_of_move hwindow moved
    exact Or.inr ⟨hstaged, stage_of_covers hwindow room hstaged hsource⟩
  | staged room moved _ _ =>
    obtain ⟨hstaged, hsource⟩ := covers_of_move hwindow moved
    exact Or.inr ⟨hstaged, stage_of_covers hwindow room hstaged hsource⟩

end Window

/-! ## Placing the module -/

theorem placeModule_of_none (h : modules.first? machine.memory.ram = none) :
    setup.placeModule modules machine = .error .noModule machine := by
  rw [placeModule, bind_of_ok (ram_apply machine), h]
  rfl

theorem placeModule_of_some (h : modules.first? machine.memory.ram = some extent) :
    setup.placeModule modules machine =
      (setup.stage extent >>= fun image => setup.load image) machine := by
  rw [placeModule, bind_of_ok (ram_apply machine), h]

/-- With room for the first module in the scratch region and in the window, placing it answers and
leaves what writing its bytes to the scratch region and placing them as a file of its own would, if
no segment of the module is placed on the copy. This goes for failures too. -/
theorem placeModule_agrees_with_file (setup : Setup) (modules : Modules) (machine : Machine)
    (hwindow : machine.memory.mapping = .window)
    (hfirst : modules.first? machine.memory.ram = some extent)
    (hroom : setup.loader.validation.isStrict = true → extent.length ≤ setup.scratch.len)
    (hsource : machine.memory.ram.covers extent.start.toNat extent.length.toNat = true)
    (hstaged : machine.memory.ram.covers setup.scratch.start.toNat extent.length.toNat = true)
    (havoids : SegmentsAvoid setup.loader (extent.bytes machine.memory.ram)
      (setup.stagedRange extent)) :
    Agree (setup.placeModule modules)
      (do
        request (.store setup.scratch.start (extent.bytes machine.memory.ram))
        setup.placeImage (extent.bytes machine.memory.ram))
      machine machine := by
  obtain ⟨staged, hstagedmem, hstage⟩ := stage_of_covers hwindow hroom hstaged hsource
  have hload : setup.placeModule modules machine =
      setup.load (.view setup.scratch.start extent.length) staged := by
    rw [placeModule_of_some hfirst, bind_of_ok hstage]
  have hstore : machine.memory.perform
      (.store setup.scratch.start (extent.bytes machine.memory.ram)) =
        .ok (setup.memoryStaged extent machine.memory) := by
    rw [perform_store hwindow, extent.length_bytes, if_pos hstaged]
    rfl
  refine .of_runs hload (bind_of_ok (request_of_perform hstore)) ?_
  refine .of_runs rfl (bind_of_ok (log_apply _ _ _ _)) ?_
  refine Agree.mapError (Loader.load_view_agree ?_ hstagedmem ?_ havoids)
  · rw [hstagedmem]
    exact (overwritten_memoryStaged hstaged).window hwindow
  · rw [hstagedmem]
    exact read_memoryStaged hstaged

/-- A strict chain for 32-bit files on 512 bytes of memory from `0x1000` on. -/
def cramped : Setup where
  loader := ⟨.elf32, .bits32, .strict⟩
  layout :=
    { layout :=
        { loader := ⟨0x2000, 0x10⟩
          stub := ⟨0x2010, 0x10⟩
          kernel := ⟨0x1000, 0x20⟩
          scratch := ⟨0x1020, 0x1E0⟩ }
      width := .bits32
      faultless := by decide }
  kernel := .fromModule

/-- A file with one segment for the address `0x1000`. -/
def lowFile : Draft :=
  { Draft.ofClass .elf32 with
    entry := 0x1000
    segments := [⟨loadable, 0x1000, none, [1, 2, 3, 4], 0x18⟩] }

/-- Memory with a module at an address. -/
def memoryWith (address : UInt64) (file : Bytes) : Memory :=
  ⟨.window, ⟨0x1000, Bytes.overlay (List.replicate 0x200 0xAA) (address.toNat - 0x1000) file⟩⟩

/-- The module starts at `0x1010`, so it overlaps both its copy at `0x1020` and its own segment. -/
theorem placeModule_agrees_with_file_overlapping :
    Memory.mapping (memoryWith 0x1010 lowFile.layOut) = .window ∧
      Agree (cramped.placeModule (.listed [⟨0x1010, 0x1068⟩]))
        (do
          request (.store 0x1020 lowFile.layOut)
          cramped.placeImage lowFile.layOut)
        (.ofMemory (memoryWith 0x1010 lowFile.layOut))
        (.ofMemory (memoryWith 0x1010 lowFile.layOut)) := by
  have hbytes : Extent.bytes ⟨0x1010, 0x1068⟩
      (Machine.ofMemory (memoryWith 0x1010 lowFile.layOut)).memory.ram = lowFile.layOut := by
    decide +kernel
  refine ⟨rfl, ?_⟩
  have hagree := placeModule_agrees_with_file cramped (.listed [⟨0x1010, 0x1068⟩])
    (.ofMemory (memoryWith 0x1010 lowFile.layOut)) rfl rfl (by decide) (by decide +kernel)
    (by decide +kernel) (by decide +kernel)
  rwa [hbytes] at hagree

end Chain.Setup

end Chainload
