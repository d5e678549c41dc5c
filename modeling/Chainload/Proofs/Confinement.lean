import Chainload.Proofs.Areas
import Chainload.Proofs.Boots
import Chainload.Proofs.PlacedStages

/-!
# What the steps of a chain write

A chain is set up with a layout that sets four areas apart, three of which it writes. A strict chain
copies a module to the scratch area only (`Setup.copyWithin_of_strict`), but nothing compares the
targets of segments with the layout. So it is up to the images whether the layout is kept.

`Step.Within` is what an image has to do for one step: its segments lie in a set of addresses, and
those of a module not on the copy that is being loaded. Without the second part a module could
change its own program headers after they were checked. `run_confined` says that such steps write
inside the written areas, however many there are. For a single image the condition is exact
(`Setup.placeImage_keeps_iff`), and a strict chain does overwrite the running stage if an image asks
for it (`run_overwrites_loader`).
-/

namespace Chainload

open Chainload.Action Elf Memory

/-- A byte of RAM can be changed. -/
theorem Memory.exists_sameWindow_ne {memory after : Memory} {a : Nat} {b : UInt8}
    (hwindow : memory.mapping = .window) (hshape : SameShape memory after)
    (hbyte : after.ram.byte? a = some b) :
    ∃ changed, SameWindow memory changed ∧ changed.ram.byte? a ≠ some b := by
  have hin : memory.ram.base.toNat ≤ a ∧ a < memory.ram.base.toNat + memory.ram.size := by
    by_contra hnot
    rw [← hshape.base, ← hshape.size] at hnot
    rw [Ram.byte?_eq_none_iff.mpr hnot] at hbyte
    cases hbyte
  have hcovers : memory.ram.covers a [b + 1].length = true := Ram.covers_iff.mpr hin
  refine ⟨⟨memory.mapping, memory.ram.write a [b + 1]⟩, ⟨⟨rfl, rfl, Ram.size_write ..⟩,
    hwindow⟩, ?_⟩
  rw [Ram.byte?_write hcovers, if_pos ⟨Nat.le_refl a, Nat.lt_succ_self a⟩, Nat.sub_self]
  have hbelow := b.toNat_lt
  simp only [List.getElem?_cons_zero, ne_eq, Option.some.injEq, ← UInt8.toNat_inj,
    UInt8.toNat_add, UInt8.toNat_one]
  omega

/-! ## Frames of actions -/

namespace Action

variable {ε α β : Type} {S : Nat → Prop} {machine : Machine}

/-- A bind writes inside a set of addresses if both of its parts do. -/
theorem keepsOutside_bind {action : Action ε α} {f : α → Action ε β}
    (h : KeepsOutside S machine.memory (action.memoryAfter machine))
    (hf : ∀ a between, action machine = .ok a between →
      KeepsOutside S machine.memory between.memory →
      KeepsOutside S between.memory ((f a).memoryAfter between)) :
    KeepsOutside S machine.memory ((action >>= f).memoryAfter machine) := by
  cases hrun : action machine with
  | ok a between =>
    rw [memoryAfter_of_ok hrun] at h
    rw [memoryAfter_congr (bind_of_ok hrun)]
    exact h.trans (hf a between hrun h)
  | error e between =>
    rw [memoryAfter_of_error hrun] at h
    rwa [memoryAfter_of_error (bind_of_error hrun)]

end Action

namespace Chain

open Multiboot Stage

/-- A line of the log writes nothing, so what follows it decides. -/
theorem keepsOutside_note {ε α : Type} {S : Nat → Prop} {machine : Machine} (level : Log.Level)
    (message : String) {f : Unit → Action ε α}
    (h : ∀ noted : Machine, noted.memory = machine.memory →
      KeepsOutside S noted.memory ((f ()).memoryAfter noted)) :
    KeepsOutside S machine.memory ((note level message >>= f).memoryAfter machine) := by
  rw [note, memoryAfter_congr (bind_of_ok (log_apply level logTarget message machine))]
  exact h { machine with records := machine.records ++ [⟨level, logTarget, message⟩] } rfl

namespace Setup

/-- Whether an address lies in the areas that the chain writes. -/
def Writable (setup : Setup) (a : Nat) : Prop :=
  setup.layout.layout.Writable a

/-- The copy of the first module, if it is staged, lies in a set of addresses. -/
def CopyWithin (setup : Setup) (S : Nat → Prop) (modules : Modules) (ram : Ram) : Prop :=
  ∀ extent, modules.first? ram = some extent → setup.HasRoom extent →
    ∀ a, (setup.stagedRange extent).Holds a → S a

/-- The first module has its segments in a set of addresses and none on its copy. -/
def ModuleWithin (setup : Setup) (S : Nat → Prop) (modules : Modules) (ram : Ram) : Prop :=
  ∀ extent, modules.first? ram = some extent →
    SegmentsWithin setup.loader (extent.bytes ram) S ∧
      SegmentsAvoid setup.loader (extent.bytes ram) (setup.stagedRange extent)

/-- The kernel has its segments in a set of addresses, and if it is a module none on its copy. -/
def KernelWithin (setup : Setup) (S : Nat → Prop) (modules : Modules) (ram : Ram) : Prop :=
  match setup.kernel with
  | .embedded image => SegmentsWithin setup.loader image S
  | .fromModule => setup.ModuleWithin S modules ram

variable {setup : Setup} {modules : Modules} {extent : Extent} {machine : Machine}
  {S : Nat → Prop} {file : Bytes}

theorem KernelWithin.mono {T : Nat → Prop} {ram : Ram} (h : setup.KernelWithin S modules ram)
    (hST : ∀ a, S a → T a) : setup.KernelWithin T modules ram := by
  unfold KernelWithin at h ⊢
  cases hkernel : setup.kernel with
  | embedded image =>
    simp only [hkernel] at h ⊢
    exact SegmentsWithin.mono h hST
  | fromModule =>
    simp only [hkernel] at h ⊢
    exact fun extent hfirst => ⟨(h extent hfirst).1.mono hST, (h extent hfirst).2⟩

/-! ## Placing one stage -/

/-- The copy of a module that there is room for lies in the scratch area. -/
theorem stagedRange_holds (hroom : extent.length ≤ setup.scratch.len) {a : Nat}
    (ha : (setup.stagedRange extent).Holds a) : setup.layout.layout.Holds .scratch a := by
  obtain ⟨hlow, hhigh⟩ := ha
  have hlen := UInt64.le_iff_toNat_le.mp hroom
  exact ⟨hlow, Nat.lt_of_lt_of_le hhigh (Nat.add_le_add_left hlen _)⟩

/-- A strict chain copies modules to the scratch area. -/
theorem copyWithin_of_strict (hstrict : setup.loader.validation = .strict)
    (hscratch : ∀ a, setup.layout.layout.Holds .scratch a → S a) (modules : Modules) (ram : Ram) :
    setup.CopyWithin S modules ram := by
  intro extent _ hroom a ha
  have hfits : extent.length ≤ setup.scratch.len := hroom (by rw [hstrict]; rfl)
  exact hscratch a (stagedRange_holds hfits ha)

section Window

variable (hwindow : machine.memory.mapping = .window)
include hwindow

theorem placeImage_keeps (h : SegmentsWithin setup.loader file S) :
    KeepsOutside S machine.memory ((setup.placeImage file).memoryAfter machine) := by
  obtain ⟨noted, hnoted, hplace⟩ := placeImage_eq_load setup file machine
  rw [← hnoted] at hwindow ⊢
  rw [memoryAfter_congr hplace, load, memoryAfter_mapError]
  refine (Loader.load_keeps setup.loader file hwindow).mono ?_
  rintro a ⟨ph, hmem, hcovers⟩
  exact h ph hmem a hcovers

/-- An embedded image that can be placed at all writes inside a set of addresses, whatever memory
holds, exactly if its segments lie in the set. -/
theorem placeImage_keeps_iff {entry : Entry} {after : Machine}
    (hplaced : setup.placeImage file machine = .ok entry after) :
    (∀ other : Machine, SameWindow machine.memory other.memory →
        KeepsOutside S other.memory ((setup.placeImage file).memoryAfter other)) ↔
      SegmentsWithin setup.loader file S := by
  constructor
  · intro hkeeps ph hmem a hcovers
    by_contra hout
    obtain ⟨noted, hnoted, hload⟩ := load_of_placeImage hplaced
    rw [← hnoted] at hwindow hkeeps
    obtain ⟨hover, hwrites⟩ := Loader.patch?_of_load hwindow hload
    obtain ⟨b, hb⟩ := hwrites ph hmem a hcovers
    have hbyte : after.memory.ram.byte? a = some b := by rw [hover.byte, hb, Option.some_or]
    -- On a memory that differs from the file at `a`, the load changes the byte there.
    obtain ⟨changed, hsame, hchanged⟩ := exists_sameWindow_ne hwindow hover.toSameShape hbyte
    obtain ⟨entry', after', hplaced', halike⟩ :=
      holdsLoaded_of_load (n := .ofMemory changed) hsame hload
    have hkept := hkeeps (.ofMemory changed) hsame
    rw [memoryAfter_of_ok hplaced'] at hkept
    have hsamebyte := (halike ph hmem a hcovers).trans (hkept.byte a hout)
    exact hchanged (hsamebyte.symm.trans hbyte)
  · intro h other hsame
    exact placeImage_keeps (hsame.window hwindow) h

/-- A view is loaded inside a set of addresses if the segments of its bytes lie in the set and none
of them on the view. -/
theorem load_view_keeps {loader : Loader} {address len : UInt64}
    (hintact : machine.memory.ram.read address.toNat len.toNat = file)
    (h : SegmentsWithin loader file S)
    (havoids : SegmentsAvoid loader file ⟨address.toNat, len.toNat⟩) :
    KeepsOutside S machine.memory ((loader.load (.view address len)).memoryAfter machine) := by
  rw [(Loader.load_view_agree hwindow rfl hintact havoids).memory]
  refine (Loader.load_keeps loader file hwindow).mono ?_
  rintro a ⟨ph, hmem, hcovers⟩
  exact h ph hmem a hcovers

theorem placeModule_keeps (hcopy : setup.CopyWithin S modules machine.memory.ram)
    (h : setup.ModuleWithin S modules machine.memory.ram) :
    KeepsOutside S machine.memory ((setup.placeModule modules).memoryAfter machine) := by
  rcases placeModule_cases hwindow setup modules with
    ⟨fault, after, hplace, hmemory⟩ | ⟨extent, staged, hfirst, hroom, hkept, hintact, hplace⟩
  · rw [memoryAfter_of_error hplace]
    exact .of_eq hmemory
  · have hcopied : KeepsOutside S machine.memory staged.memory :=
      hkept.mono (hcopy extent hfirst hroom)
    obtain ⟨hwithin, havoids⟩ := h extent hfirst
    rw [memoryAfter_congr hplace, load, memoryAfter_mapError]
    exact hcopied.trans (load_view_keeps (hcopied.window hwindow) hintact hwithin havoids)

theorem placeKernel_keeps
    (hcopy : setup.kernel = .fromModule → setup.CopyWithin S modules machine.memory.ram)
    (h : setup.KernelWithin S modules machine.memory.ram) :
    KeepsOutside S machine.memory ((setup.placeKernel modules).memoryAfter machine) := by
  unfold KernelWithin at h
  unfold placeKernel
  cases hkernel : setup.kernel with
  | embedded image =>
    simp only [hkernel] at h ⊢
    exact placeImage_keeps hwindow h
  | fromModule =>
    simp only [hkernel] at h ⊢
    exact placeModule_keeps hwindow (hcopy hkernel) h

/-- Getting ready to call the stub writes what placing the stub and then the kernel does. -/
theorem readyBoth_keeps {stub : Bytes} {handoff : Handoff}
    (hcopy : setup.kernel = .fromModule →
      setup.CopyWithin S modules ((setup.placeImage stub).memoryAfter machine).ram)
    (hstub : SegmentsWithin setup.loader stub S)
    (hkernel : setup.KernelWithin S modules ((setup.placeImage stub).memoryAfter machine).ram) :
    KeepsOutside S machine.memory
      ((setup.readyBoth stub modules handoff).memoryAfter machine) := by
  refine keepsOutside_bind (placeImage_keeps hwindow hstub) fun address stubbed hplaced hkept => ?_
  rw [memoryAfter_of_ok hplaced] at hcopy hkernel
  refine keepsOutside_bind (.of_eq (memoryAfter_ofExcept ..)) fun entry between hentry _ => ?_
  obtain ⟨-, rfl⟩ := ofExcept_eq_ok_iff.mp hentry
  refine keepsOutside_note _ _ fun noted hnoted => ?_
  rw [← hnoted] at hkept hcopy hkernel
  refine keepsOutside_bind (placeKernel_keeps (hkept.window hwindow) hcopy hkernel) ?_
  intro kernelEntry ready _ _
  refine keepsOutside_note _ _ fun noted _ => .of_eq ?_
  rw [memoryAfter_bind_pure, memoryAfter_ofExcept]

end Window

end Setup

/-! ## One step -/

/-- Every image that a step places has its segments in the set of addresses, and none of a module on
its copy. The kernel is the one that memory holds once the stub is placed. -/
def Step.Within (setup : Setup) (S : Nat → Prop) (memory : Memory) : Step → Prop
  | .placeImage image => SegmentsWithin setup.loader image S
  | .placeModule modules => setup.ModuleWithin S modules memory.ram
  | .placeKernel modules => setup.KernelWithin S modules memory.ram
  | .bootImage image _ => SegmentsWithin setup.loader image S
  | .bootModule modules _ => setup.ModuleWithin S modules memory.ram
  | .bootThroughStub stub modules _ =>
    SegmentsWithin setup.loader stub S ∧
      setup.KernelWithin S modules
        ((setup.placeImage stub).memoryAfter (.ofMemory memory)).ram

/-- Every step of a run keeps to the set of addresses. -/
def RunWithin (setup : Setup) (S : Nat → Prop) : State → List Step → Prop
  | _, [] => True
  | state, step :: rest =>
    step.Within setup S state.memory ∧ RunWithin setup S (step.perform setup state).state rest

variable {setup : Setup} {S : Nat → Prop} {state : State}

/-- One step writes inside the set of addresses that its images and its copy lie in. -/
theorem Step.perform_keeps (hcopy : ∀ modules ram, setup.CopyWithin S modules ram) {step : Step}
    (hwindow : state.memory.mapping = .window) (h : step.Within setup S state.memory) :
    KeepsOutside S state.memory (step.perform setup state).state.memory := by
  have hmachine : (Machine.ofMemory state.memory).memory.mapping = .window := hwindow
  cases step with
  | placeImage image =>
    rw [perform, Report.memory_ofPlacement]
    exact Setup.placeImage_keeps hmachine h
  | placeModule modules =>
    rw [perform, Report.memory_ofPlacement]
    exact Setup.placeModule_keeps hmachine (hcopy _ _) h
  | placeKernel modules =>
    rw [perform, Report.memory_ofPlacement]
    exact Setup.placeKernel_keeps hmachine (fun _ => hcopy _ _) h
  | bootImage image handoff =>
    rw [perform, Report.memory_ofBoot]
    exact keepsOutside_bind (Setup.placeImage_keeps hmachine h) fun _ _ _ _ => .of_eq (by simp)
  | bootModule modules handoff =>
    rw [perform, Report.memory_ofBoot]
    exact keepsOutside_bind (Setup.placeModule_keeps hmachine (hcopy _ _) h)
      fun _ _ _ _ => .of_eq (by simp)
  | bootThroughStub stub modules handoff =>
    rw [perform, Report.memory_ofBoot, Setup.readyStub, memoryAfter_logError]
    exact Setup.readyBoth_keeps hmachine (fun _ => hcopy _ _) h.1 h.2

/-! ## Runs -/

/-- However many steps are done, all that they write lies in the set of addresses that each of them
keeps to. -/
theorem run_keeps (hcopy : ∀ modules ram, setup.CopyWithin S modules ram) :
    ∀ {steps : List Step} {state : State}, state.memory.mapping = .window →
      RunWithin setup S state steps →
      ∀ report ∈ run setup state steps, KeepsOutside S state.memory report.state.memory
  | [], _, _, _, _, hmem => nomatch hmem
  | step :: rest, state, hwindow, ⟨hstep, hrest⟩, report, hmem => by
    have hkept := Step.perform_keeps hcopy hwindow hstep
    rcases List.mem_cons.mp hmem with rfl | hmem
    · exact hkept
    · exact hkept.trans (run_keeps hcopy (hkept.window hwindow) hrest report hmem)

/-- The steps of a strict chain write inside the written areas only, and never where the running
stage lies, if the images keep to those areas. -/
theorem run_confined (hstrict : setup.loader.validation = .strict)
    (hwindow : state.memory.mapping = .window) {steps : List Step}
    (h : RunWithin setup setup.Writable state steps) :
    ∀ report ∈ run setup state steps,
      KeepsOutside setup.Writable state.memory report.state.memory ∧
        ∀ a, setup.layout.layout.Holds .loader a →
          report.state.memory.ram.byte? a = state.memory.ram.byte? a := by
  have hcopy : ∀ modules ram, setup.CopyWithin setup.Writable modules ram :=
    Setup.copyWithin_of_strict hstrict fun a ha => ⟨.scratch, by decide, ha⟩
  intro report hmem
  have hkept := run_keeps hcopy hwindow h report hmem
  refine ⟨hkept, fun a ha => ?_⟩
  exact hkept.byte a (setup.layout.not_writable_of_loader ha)

/-- A strict chain for 32-bit files whose areas follow one another from `0x1000` on. -/
def compact : Setup where
  loader := ⟨.elf32, .bits32, .strict⟩
  layout :=
    { layout :=
        { loader := ⟨0x1000, 0x100⟩
          stub := ⟨0x1100, 0x100⟩
          kernel := ⟨0x1200, 0x100⟩
          scratch := ⟨0x1300, 0x100⟩ }
      width := .bits32
      faultless := by decide }
  kernel := .fromModule

/-- A file with one segment, for the address. -/
def fileFor (address : UInt64) : Bytes :=
  Draft.layOut
    { Draft.ofClass .elf32 with
      entry := address
      segments := [⟨loadable, address, none, [1, 2, 3, 4], 0x18⟩] }

/-- A kernel that came as a module, with a segment for the address `0x12B0`. -/
def deliveredKernel : Bytes :=
  fileFor 0x12B0

/-- Where the kernel came: across the border between the kernel area and the scratch area. -/
def delivery : Extent :=
  ⟨0x12C0, 0x1318⟩

/-- The memory of the compact chain, with the kernel. -/
def compactMemory : Memory :=
  ⟨.window, ⟨0x1000, Bytes.overlay (List.replicate 0x400 0xAA) 0x2C0 deliveredKernel⟩⟩

/-- The stub and the kernel keep to their areas, so the run does. -/
theorem run_confined_compact :
    compact.loader.validation = .strict ∧ compactMemory.mapping = .window ∧
      ∀ report ∈ run compact ⟨compactMemory, .fresh⟩
          [.placeImage (fileFor 0x1100), .bootModule (.listed [delivery]) ⟨0, 0⟩],
        KeepsOutside compact.Writable compactMemory report.state.memory := by
  have hstub : SegmentsWithin compact.loader (fileFor 0x1100) (compact.layout.layout.Holds .stub) :=
    .of_spans (by decide +kernel)
  have hkernel : SegmentsWithin compact.loader deliveredKernel
      (compact.layout.layout.Holds .kernel) :=
    .of_spans (by decide +kernel)
  have hwithin : RunWithin compact compact.Writable ⟨compactMemory, .fresh⟩
      [.placeImage (fileFor 0x1100), .bootModule (.listed [delivery]) ⟨0, 0⟩] := by
    refine ⟨hstub.mono fun a ha => ⟨.stub, by decide, ha⟩, ?_, trivial⟩
    rintro extent ⟨⟩
    have hbytes : delivery.bytes ((Step.placeImage (fileFor 0x1100)).perform compact
        ⟨compactMemory, .fresh⟩).state.memory.ram = deliveredKernel := by decide +kernel
    rw [hbytes]
    exact ⟨hkernel.mono fun a ha => ⟨.kernel, by decide, ha⟩, by decide +kernel⟩
  exact ⟨rfl, rfl, fun report hmem => (run_confined rfl rfl hwithin report hmem).1⟩

/-- A strict chain overwrites the running stage if an image asks for it. -/
theorem run_overwrites_loader :
    compact.loader.validation = .strict ∧ compactMemory.mapping = .window ∧
      compact.layout.layout.Holds .loader 0x1000 ∧
      ∃ report ∈ run compact ⟨compactMemory, .fresh⟩ [.placeImage (fileFor 0x1000)],
        report.outcome = .loaded ⟨0x1000, by decide⟩ ∧
        compactMemory.ram.byte? 0x1000 = some 0xAA ∧
        report.state.memory.ram.byte? 0x1000 = some 1 := by
  refine ⟨rfl, rfl, by decide, _, List.mem_singleton_self _, ?_⟩
  decide +kernel

end Chain

end Chainload
