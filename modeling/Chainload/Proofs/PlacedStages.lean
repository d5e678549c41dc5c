import Chainload.Proofs.LoadedMemory
import Chainload.Proofs.Staging

/-!
# Placing a stage

An embedded image is loaded as a file (`Setup.placeImage_eq_load`), a module through the view of its
copy (`Setup.placeModule_cases`). What either answers and leaves depends on memory alone
(`Setup.placeKernel_of_sameMemory`), not on what was asked or logged before.

Of a file that was loaded, memory holds at every address of its segments what placing it on any
other window at the same place leaves there (`Setup.HoldsLoaded`).
-/

namespace Chainload

open Chainload.Action Elf Memory

/-- On windows at the same place, the load of a file leaves the same bytes wherever its segments
lie. -/
theorem Elf.Loader.load_leaves_alike {loader : Loader} {file : Bytes} {entry : Entry}
    {m n m' : Machine} (hsame : SameWindow m.memory n.memory)
    (h : loader.load (.file file) m = .ok entry m') :
    ∃ n', loader.load (.file file) n = .ok entry n' ∧
      ∀ ph ∈ segments loader.cls file, ∀ a, ph.Covers loader.width a →
        n'.memory.ram.byte? a = m'.memory.ram.byte? a := by
  have hrelated := Loader.load_file_sameWindow loader file hsame
  obtain ⟨n', h'⟩ := ok_of_answer (hrelated.answer.symm.trans (answer_of_ok h))
  obtain ⟨hover, hwrites⟩ := patch?_of_load hsame.isWindow h
  obtain ⟨hover', -⟩ := patch?_of_load (hsame.window hsame.isWindow) h'
  refine ⟨n', h', fun ph hmem a hcovers => ?_⟩
  obtain ⟨b, hb⟩ := hwrites ph hmem a hcovers
  rw [hover.byte, hover'.byte, hb, Option.some_or, Option.some_or]

namespace Chain.Setup

open Multiboot

variable {setup : Setup} {modules : Modules} {extent : Extent} {machine : Machine} {file : Bytes}

/-! ## Images -/

/-- To place an embedded image is to load it as a file. -/
theorem placeImage_eq_load (setup : Setup) (file : Bytes) (machine : Machine) :
    ∃ noted : Machine, noted.memory = machine.memory ∧
      setup.placeImage file machine = setup.load (.file file) noted := by
  refine ⟨_, ?_, bind_of_ok (log_apply _ _ _ machine)⟩
  rfl

/-- Placing an image that returns has loaded it as a file. -/
theorem load_of_placeImage {entry : Entry} {after : Machine}
    (h : setup.placeImage file machine = .ok entry after) :
    ∃ noted : Machine, noted.memory = machine.memory ∧
      setup.loader.load (.file file) noted = .ok entry after := by
  obtain ⟨noted, hnoted, hplace⟩ := placeImage_eq_load setup file machine
  rw [hplace, load, mapError_eq_ok_iff] at h
  exact ⟨noted, hnoted, h⟩

/-- Memory holds at every address of the segments of a file what placing the file alone leaves
there. -/
def HoldsLoaded (setup : Setup) (file : Bytes) (machine : Machine) (memory : Memory) : Prop :=
  ∃ entry alone, setup.placeImage file machine = .ok entry alone ∧
    ∀ ph ∈ segments setup.loader.cls file, ∀ a, ph.Covers setup.loader.width a →
      memory.ram.byte? a = alone.memory.ram.byte? a

/-- What was loaded as a file on one window is held as placed on any other one at the same place. -/
theorem holdsLoaded_of_load {entry : Entry} {m n m' : Machine}
    (hsame : SameWindow m.memory n.memory)
    (h : setup.loader.load (.file file) m = .ok entry m') : setup.HoldsLoaded file n m'.memory := by
  obtain ⟨noted, hnoted, hplace⟩ := placeImage_eq_load setup file n
  rw [← hnoted] at hsame
  obtain ⟨n', hload', halike⟩ := Loader.load_leaves_alike hsame h
  refine ⟨entry, n', hplace.trans (mapError_of_ok hload'), fun ph hmem a hcovers => ?_⟩
  exact (halike ph hmem a hcovers).symm

/-! ## Modules -/

theorem hasRoom_of_stage {image : Image} {staged : Machine}
    (h : setup.stage extent machine = .ok image staged) : setup.HasRoom extent := by
  by_contra hroom
  obtain ⟨hstrict, hless⟩ := not_hasRoom_iff.mp hroom
  cases (stage_of_noRoom hstrict hless).symm.trans h

/-- Either no module is copied and memory stays as it was, or there is room for the first module,
its copy reads as it did, and the view of the copy is loaded. -/
theorem placeModule_cases (hwindow : machine.memory.mapping = .window) (setup : Setup)
    (modules : Modules) :
    (∃ fault after, setup.placeModule modules machine = .error fault after ∧
        after.memory = machine.memory) ∨
      ∃ extent staged, modules.first? machine.memory.ram = some extent ∧ setup.HasRoom extent ∧
        KeepsOutside (setup.stagedRange extent).Holds machine.memory staged.memory ∧
        staged.memory.ram.read setup.scratch.start.toNat extent.length.toNat =
          extent.bytes machine.memory.ram ∧
        setup.placeModule modules machine =
          setup.load (.view setup.scratch.start extent.length) staged := by
  cases hfirst : modules.first? machine.memory.ram with
  | none => exact Or.inl ⟨.noModule, machine, placeModule_of_none hfirst, rfl⟩
  | some extent =>
    rw [placeModule_of_some hfirst]
    rcases stage_cases hwindow setup extent with
      ⟨fault, after, hstage, hmemory, -⟩ | ⟨hstaged, staged, hmemory, hstage⟩
    · exact Or.inl ⟨fault, after, bind_of_error hstage, hmemory⟩
    · refine Or.inr ⟨extent, staged, rfl, hasRoom_of_stage hstage, ?_, ?_, bind_of_ok hstage⟩
      · rw [hmemory]
        refine (overwritten_memoryStaged hstaged).keepsOutside fun a ha => ?_
        rwa [Bytes.at?_eq_none_iff, extent.length_bytes]
      · rw [hmemory, read_memoryStaged hstaged]

/-! ## Placing depends on memory alone -/

section SameMemory

variable {m n : Machine} (hmemory : m.memory = n.memory)
include hmemory

/-- What placing an image answers and leaves depends on memory alone. -/
theorem placeImage_of_sameMemory (setup : Setup) (file : Bytes) :
    Related Eq (setup.placeImage file) (setup.placeImage file) m n := by
  unfold placeImage note load
  refine (Related.log hmemory).bind fun _ _ _ _ _ hnoted => ?_
  exact (Loader.load_of_sameMemory setup.loader (.file file) hnoted).mapError

theorem request_of_sameMemory (access : Request) :
    Related Eq (request access) (request access) m n :=
  (Related.request bisimulation_eq access hmemory).mapError

theorem stage_of_sameMemory (setup : Setup) (extent : Extent) :
    Related Eq (setup.stage extent) (setup.stage extent) m n := by
  by_cases hroom : setup.HasRoom extent
  case neg =>
    obtain ⟨hstrict, hless⟩ := not_hasRoom_iff.mp hroom
    exact .of_error (stage_of_noRoom hstrict hless) (stage_of_noRoom hstrict hless) hmemory
  obtain ⟨noted, hnoted, hm⟩ := stage_of_room m hroom
  obtain ⟨noted', hnoted', hn⟩ := stage_of_room n hroom
  rw [← hnoted, ← hnoted'] at hmemory
  refine .of_runs hm hn ?_
  refine (request_of_sameMemory hmemory _).bind fun _ _ _ _ _ hmoved => ?_
  exact (request_of_sameMemory hmoved _).bind fun _ _ _ _ _ hviewed => .pure _ hviewed

theorem placeModule_of_sameMemory (setup : Setup) (modules : Modules) :
    Related Eq (setup.placeModule modules) (setup.placeModule modules) m n := by
  cases hfirst : modules.first? n.memory.ram with
  | none =>
    have hnone : setup.placeModule modules n = .error .noModule n := placeModule_of_none hfirst
    rw [← hmemory] at hfirst
    exact .of_error (placeModule_of_none hfirst) hnone hmemory
  | some extent =>
    have hsome : setup.placeModule modules n =
        (setup.stage extent >>= fun image => setup.load image) n := placeModule_of_some hfirst
    rw [← hmemory] at hfirst
    refine .of_runs (placeModule_of_some hfirst) hsome ?_
    refine (stage_of_sameMemory hmemory setup extent).bind fun image _ _ _ _ hstaged => ?_
    exact (Loader.load_of_sameMemory setup.loader image hstaged).mapError

theorem placeKernel_of_sameMemory (setup : Setup) (modules : Modules) :
    Related Eq (setup.placeKernel modules) (setup.placeKernel modules) m n := by
  unfold placeKernel
  cases setup.kernel with
  | embedded image => exact placeImage_of_sameMemory hmemory setup image
  | fromModule => exact placeModule_of_sameMemory hmemory setup modules

end SameMemory

end Chain.Setup

end Chainload
