import Chainload.Proofs.Confinement

/-!
# The stub and the kernel side by side

To boot by way of the stub, the stub is loaded, then the kernel, which may be copied to the scratch
area before. All of this goes to one memory. `Setup.readyStub_leaves_both` says that nothing of it
is lost if the stub keeps to the stub area and the kernel to the kernel area: when the stub is
called, memory holds of both what loading each of them alone leaves.

This rests on the areas of a checked layout being apart. The module that the kernel comes in may lie
anywhere but in the stub area; it may overlap its copy and the addresses that it is loaded to.
-/

namespace Chainload.Chain.Setup

open Chainload.Action Elf Layout Memory Multiboot Stage

variable {setup : Setup} {modules : Modules} {machine : Machine}

/-! ## What the kernel is loaded from -/

/-- The bytes that the kernel is loaded from: an embedded image, or what RAM holds of the first
module. Which module is first is read in a RAM of its own, since a table of modules may change. -/
def kernelFile? (setup : Setup) (modules : Modules) (asked held : Ram) : Option Bytes :=
  match setup.kernel with
  | .embedded image => some image
  | .fromModule => (modules.first? asked).map fun extent => extent.bytes held

/-- The areas that are written when the kernel is placed: its own and, for a module, that of the
copy. -/
def KernelAreas (setup : Setup) (a : Nat) : Prop :=
  setup.layout.layout.Holds .kernel a ∨
    setup.kernel = .fromModule ∧ setup.layout.layout.Holds .scratch a

/-- A file stays held while its segments are not written. -/
theorem HoldsLoaded.keep {file : Bytes} {first second : Memory} {S T : Nat → Prop}
    (h : setup.HoldsLoaded file machine first) (hkept : KeepsOutside S first second)
    (hwithin : SegmentsWithin setup.loader file T) (hapart : ∀ a, T a → ¬S a) :
    setup.HoldsLoaded file machine second := by
  obtain ⟨entry, alone, hplaced, hbytes⟩ := h
  refine ⟨entry, alone, hplaced, fun ph hmem a hcovers => ?_⟩
  rw [hkept.byte a (hapart a (hwithin ph hmem a hcovers))]
  exact hbytes ph hmem a hcovers

section Window

variable {n : Machine} {entry : Entry} {placed : Machine}
  (hwindow : machine.memory.mapping = .window) (hsame : SameShape machine.memory n.memory)
include hwindow hsame

/-- A module that was placed, with no segment on its copy, is held as placed as a file. -/
theorem holdsLoaded_of_placeModule
    (havoids : ∀ extent, modules.first? machine.memory.ram = some extent →
      SegmentsAvoid setup.loader (extent.bytes machine.memory.ram) (setup.stagedRange extent))
    (h : setup.placeModule modules machine = .ok entry placed) :
    ∃ extent, modules.first? machine.memory.ram = some extent ∧
      setup.HoldsLoaded (extent.bytes machine.memory.ram) n placed.memory := by
  rcases placeModule_cases hwindow setup modules with
    ⟨fault, after, hplace, -⟩ | ⟨extent, staged, hfirst, -, hkept, hintact, hplace⟩
  · cases hplace.symm.trans h
  · rw [hplace, load, mapError_eq_ok_iff] at h
    have hstaged := hkept.window hwindow
    -- Loading the view of the copy is loading the bytes of the module.
    have hagree := Loader.load_view_agree (n := staged) hstaged rfl hintact (havoids extent hfirst)
    obtain ⟨left, hfile⟩ := ok_of_answer (hagree.answer.symm.trans (answer_of_ok h))
    have hleft := hagree.memory
    rw [memoryAfter_of_ok h, memoryAfter_of_ok hfile] at hleft
    rw [hleft]
    refine ⟨extent, hfirst, holdsLoaded_of_load ⟨?_, hstaged⟩ hfile⟩
    exact hkept.toSameShape.symm.trans hsame

/-- A kernel that was placed is held as placed as a file, if it keeps off its copy. -/
theorem holdsLoaded_of_placeKernel {S : Nat → Prop}
    (hwithin : setup.KernelWithin S modules machine.memory.ram)
    (h : setup.placeKernel modules machine = .ok entry placed) :
    ∃ file, setup.kernelFile? modules machine.memory.ram machine.memory.ram = some file ∧
      setup.HoldsLoaded file n placed.memory := by
  unfold KernelWithin at hwithin
  unfold placeKernel at h
  unfold kernelFile?
  cases hkernel : setup.kernel with
  | embedded image =>
    simp only [hkernel] at h ⊢
    obtain ⟨noted, hnoted, hload⟩ := load_of_placeImage h
    refine ⟨image, rfl, holdsLoaded_of_load ?_ hload⟩
    rw [hnoted]
    exact ⟨hsame, hwindow⟩
  | fromModule =>
    simp only [hkernel] at h hwithin ⊢
    obtain ⟨extent, hfirst, hholds⟩ := holdsLoaded_of_placeModule hwindow hsame
      (fun extent hfirst => (hwithin extent hfirst).2) h
    exact ⟨extent.bytes machine.memory.ram, by rw [hfirst, Option.map_some], hholds⟩

end Window

/-! ## Both stages -/

/-- The stub keeps to the stub area and the kernel to the kernel area. A module that the kernel
comes in lies outside the stub area and is not longer than the scratch area. The first module is the
one that memory names once the stub is placed. -/
structure KeepsToAreas (setup : Setup) (stub : Bytes) (modules : Modules) (machine : Machine) :
    Prop where
  stubWithin : SegmentsWithin setup.loader stub (setup.layout.layout.Holds .stub)
  kernelWithin : ∀ file,
    setup.kernelFile? modules ((setup.placeImage stub).memoryAfter machine).ram
        machine.memory.ram = some file →
      SegmentsWithin setup.loader file (setup.layout.layout.Holds .kernel)
  moduleFits : setup.kernel = .fromModule → ∀ extent,
    modules.first? ((setup.placeImage stub).memoryAfter machine).ram = some extent →
      ¬extent.span.Meets setup.layout.layout.stub.span ∧ extent.length ≤ setup.scratch.len

section Both

variable {stub : Bytes} {stubEntry : Entry} {stubbed noted : Machine}
  (hwindow : machine.memory.mapping = .window) (hareas : setup.KeepsToAreas stub modules machine)
  (hstub : setup.placeImage stub machine = .ok stubEntry stubbed)

include hwindow hareas hstub

theorem stub_keeps :
    KeepsOutside (setup.layout.layout.Holds .stub) machine.memory stubbed.memory := by
  have hkept := placeImage_keeps hwindow hareas.stubWithin
  rwa [memoryAfter_of_ok hstub] at hkept

/-- The stub leaves a module that the kernel comes in as it was. -/
theorem bytes_stubbed (hmodule : setup.kernel = .fromModule) {extent : Extent}
    (hfirst : modules.first? stubbed.memory.ram = some extent) :
    extent.bytes stubbed.memory.ram = extent.bytes machine.memory.ram := by
  rw [← memoryAfter_of_ok hstub] at hfirst
  obtain ⟨hapart, -⟩ := hareas.moduleFits hmodule extent hfirst
  refine (stub_keeps hwindow hareas hstub).read fun a hin hstubbed => ?_
  exact hapart ⟨a, hin, hstubbed⟩

/-- The kernel is loaded from the bytes that it had before the stub was placed. -/
theorem kernelFile?_stubbed :
    setup.kernelFile? modules stubbed.memory.ram stubbed.memory.ram =
      setup.kernelFile? modules stubbed.memory.ram machine.memory.ram := by
  unfold kernelFile?
  cases hkernel : setup.kernel with
  | embedded image => rfl
  | fromModule =>
    cases hfirst : modules.first? stubbed.memory.ram with
    | none => rfl
    | some extent =>
      simp only [Option.map_some, bytes_stubbed hwindow hareas hstub hkernel hfirst]

/-- Once the stub is placed, the kernel keeps to its area and to its copy. -/
theorem kernelWithin_stubbed :
    setup.KernelWithin (setup.layout.layout.Holds .kernel) modules stubbed.memory.ram := by
  have hfile := hareas.kernelWithin
  rw [memoryAfter_of_ok hstub, ← kernelFile?_stubbed hwindow hareas hstub] at hfile
  unfold KernelWithin
  unfold kernelFile? at hfile
  cases hkernel : setup.kernel with
  | embedded image =>
    simp only [hkernel] at hfile ⊢
    exact hfile image rfl
  | fromModule =>
    simp only [hkernel] at hfile ⊢
    intro extent hfirst
    have hwithin : SegmentsWithin setup.loader (extent.bytes stubbed.memory.ram)
        (setup.layout.layout.Holds .kernel) :=
      hfile _ (by rw [hfirst, Option.map_some])
    rw [← memoryAfter_of_ok hstub] at hfirst
    obtain ⟨-, hfits⟩ := hareas.moduleFits hkernel extent hfirst
    refine ⟨hwithin, hwithin.avoid fun a ha hcopy => ?_⟩
    exact setup.layout.apart (by decide) ha (stagedRange_holds hfits hcopy)

/-- Once the stub is placed, the kernel writes its own areas only. -/
theorem kernel_keeps {kernelEntry : Entry} {placed : Machine}
    (hnoted : noted.memory = stubbed.memory)
    (hkernel : setup.placeKernel modules noted = .ok kernelEntry placed) :
    KeepsOutside setup.KernelAreas noted.memory placed.memory := by
  have hshape := (stub_keeps hwindow hareas hstub).toSameShape
  have hwithin := kernelWithin_stubbed hwindow hareas hstub
  have hcopy : setup.kernel = .fromModule →
      setup.CopyWithin setup.KernelAreas modules stubbed.memory.ram := by
    intro hmodule extent hfirst _ a ha
    rw [← memoryAfter_of_ok hstub] at hfirst
    obtain ⟨-, hfits⟩ := hareas.moduleFits hmodule extent hfirst
    exact Or.inr ⟨hmodule, stagedRange_holds hfits ha⟩
  rw [← hnoted] at hshape hwithin hcopy
  have hkept := placeKernel_keeps (hshape.window hwindow) hcopy (hwithin.mono fun a => Or.inl)
  rwa [memoryAfter_of_ok hkernel] at hkept

end Both

/-- When the stub is called, memory holds of the stub and of the kernel what placing each of them
alone leaves, the kernel from the bytes that it had before; and nothing was written outside the stub
area, the kernel area and, for a module, the scratch area. -/
theorem readyStub_leaves_both (setup : Setup) (stub : Bytes) (modules : Modules) (handoff : Handoff)
    {machine ready : Machine} {call : Call} (hwindow : machine.memory.mapping = .window)
    (hareas : setup.KeepsToAreas stub modules machine)
    (hready : setup.readyStub stub modules handoff machine = .ok call ready) :
    setup.HoldsLoaded stub machine ready.memory ∧
      (∃ file,
        setup.kernelFile? modules ((setup.placeImage stub).memoryAfter machine).ram
            machine.memory.ram = some file ∧
          setup.HoldsLoaded file machine ready.memory) ∧
      KeepsOutside (fun a => setup.layout.layout.Holds .stub a ∨ setup.KernelAreas a)
        machine.memory ready.memory := by
  obtain ⟨stubEntry, stubbed, hstub, -, -, noted, hnoted, kernelEntry, placed, hkernel, hleft, -⟩ :=
    placed_of_readyStub hready
  have hstubkept := stub_keeps hwindow hareas hstub
  have hkernelkept := kernel_keeps hwindow hareas hstub hnoted hkernel
  have hwithin := kernelWithin_stubbed hwindow hareas hstub
  have hfile := kernelFile?_stubbed hwindow hareas hstub
  have hstubheld : setup.HoldsLoaded stub machine stubbed.memory :=
    ⟨stubEntry, stubbed, hstub, fun _ _ _ _ => rfl⟩
  rw [memoryAfter_of_ok hstub, hleft]
  rw [← hnoted] at hstubkept hwithin hfile hstubheld ⊢
  obtain ⟨file, hsource, hkernelheld⟩ := holdsLoaded_of_placeKernel
    (hstubkept.window hwindow) hstubkept.toSameShape.symm hwithin hkernel
  refine ⟨hstubheld.keep hkernelkept hareas.stubWithin ?_, ⟨file, ?_, hkernelheld⟩, ?_⟩
  · -- The kernel lies off the stub because the areas are apart.
    rintro a hstubarea (hkernelarea | ⟨-, hscratch⟩)
    · exact setup.layout.apart (by decide) hstubarea hkernelarea
    · exact setup.layout.apart (by decide) hstubarea hscratch
  · rw [← hfile, hsource]
  · exact (hstubkept.mono fun a => Or.inl).trans (hkernelkept.mono fun a => Or.inr)

/-- The stub for `0x1100` and the module at `0x12C0` keep to the areas of the compact chain. -/
theorem keepsToAreas_compact :
    compact.KeepsToAreas (fileFor 0x1100) (.listed [delivery]) (.ofMemory compactMemory) where
  stubWithin := .of_spans (by decide +kernel)
  kernelWithin file hfile := by
    have hdelivered : delivery.bytes compactMemory.ram = deliveredKernel := by decide +kernel
    obtain rfl : deliveredKernel = file := by
      rw [← hdelivered]
      exact Option.some.inj hfile
    exact .of_spans (by decide +kernel)
  moduleFits := by
    rintro - extent ⟨⟩
    exact ⟨by decide, by decide⟩

/-- The module overlaps the copy that is made of it and the addresses that it is loaded to. -/
theorem readyStub_leaves_both_compact :
    Memory.mapping compactMemory = .window ∧
      compact.KeepsToAreas (fileFor 0x1100) (.listed [delivery]) (.ofMemory compactMemory) ∧
      ∃ call ready,
        compact.readyStub (fileFor 0x1100) (.listed [delivery]) ⟨0x2BADB002, 0x500⟩
            (.ofMemory compactMemory) = .ok call ready ∧
          compact.HoldsLoaded (fileFor 0x1100) (.ofMemory compactMemory) ready.memory := by
  have hanswer : (compact.readyStub (fileFor 0x1100) (.listed [delivery])
      ⟨0x2BADB002, 0x500⟩).answer (.ofMemory compactMemory) =
        .ok ⟨⟨0x1100, .cdecl32, by decide, by decide⟩, .stub ⟨0x12B0, 0x2BADB002, 0x500⟩⟩ := by
    decide +kernel
  obtain ⟨ready, hready⟩ := ok_of_answer hanswer
  have hleft := readyStub_leaves_both compact (fileFor 0x1100) (.listed [delivery])
    ⟨0x2BADB002, 0x500⟩ rfl keepsToAreas_compact hready
  exact ⟨rfl, keepsToAreas_compact, _, ready, hready, hleft.1⟩

end Chainload.Chain.Setup
