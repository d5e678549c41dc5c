import Chainload.Proofs.Handover

/-!
# Where booting by way of the stub stops

Booting by way of the stub takes five stages: the stub is loaded, its entry is made an entry point,
the kernel is placed, its entry and the handoff are packed into arguments, and the call is made.
`bootThroughStub_stops_at_first_failure` says that the first stage to fail is the last one to do
anything. The error is that of the stage, and the step leaves what the steps that place the stub and
the kernel leave, as far as it got to them. Only the last stage involves the transfer.

After the kernel is placed memory stays as it is, whatever else fails
(`Setup.memoryAfter_readyStub`).
-/

namespace Chainload.Action

variable {ε α β : Type}

/-- A bind leaves the memory that its first part leaves if the second part only looks at it. -/
theorem memoryAfter_bind_of_keeps {action : Action ε α} {f : α → Action ε β}
    (hf : ∀ a machine, (f a).memoryAfter machine = machine.memory) (machine : Machine) :
    (action >>= f).memoryAfter machine = action.memoryAfter machine := by
  cases hrun : action machine with
  | ok a between => rw [memoryAfter_congr (bind_of_ok hrun), hf, memoryAfter_of_ok hrun]
  | error e left =>
    rw [memoryAfter_of_error (bind_of_error hrun), memoryAfter_of_error hrun]

end Chainload.Action

namespace Chainload.Chain

open Chainload.Action Elf Multiboot Stage

namespace Setup

variable {setup : Setup} {stub : Bytes} {modules : Modules} {machine left : Machine}

/-! ## The stub is not ready -/

/-- Nothing is done after the stub if it is not loaded. -/
theorem readyBoth_of_noStub {fault : Fault} (h : setup.placeImage stub machine = .error fault left)
    (handoff : Handoff) : setup.readyBoth stub modules handoff machine = .error fault left :=
  bind_of_error h

/-- Nothing is done after the stub if its entry cannot be called. -/
theorem readyBoth_of_refused {stubEntry : Entry} {fault : Stage.Fault}
    (h : setup.placeImage stub machine = .ok stubEntry left)
    (hpoint : EntryPoint.ofAddress stubEntry.address .cdecl32 = .error fault) (handoff : Handoff) :
    setup.readyBoth stub modules handoff machine = .error (.handover fault) left := by
  rw [readyBoth, bind_of_ok h, hpoint]
  rfl

/-- A step that fails before it is ready to call leaves the machine as it is, but for the line that
it logs. -/
theorem perform_of_unready {fault : Fault} {handoff : Handoff} {state : State}
    (h : setup.readyBoth stub modules handoff (.ofMemory state.memory) = .error fault left) :
    let report := (Step.bootThroughStub stub modules handoff).perform setup state
    report.outcome = .failed fault ∧ report.state = ⟨left.memory, state.transfer⟩ ∧
      report.requests = left.requests := by
  simp only [Step.perform, readyStub, logError_apply, h]
  exact ⟨rfl, rfl, rfl⟩

/-! ## The stub is ready -/

section Stubbed

variable {stubEntry : Entry} {point : EntryPoint}
  (hstub : setup.placeImage stub machine = .ok stubEntry left)
  (hpoint : EntryPoint.ofAddress stubEntry.address .cdecl32 = .ok point)
include hstub hpoint

/-- After the stub, memory is changed only by placing the kernel. -/
theorem memoryAfter_readyStub (modules : Modules) (handoff : Handoff) :
    (setup.readyStub stub modules handoff).memoryAfter machine =
      (setup.placeKernel modules).memoryAfter (.ofMemory left.memory) := by
  have hmade : Action.ofExcept ((EntryPoint.ofAddress stubEntry.address .cdecl32).mapError
      Fault.handover) left = .ok point left := by rw [hpoint]; rfl
  rw [readyStub, memoryAfter_logError, readyBoth, memoryAfter_congr (bind_of_ok hstub),
    memoryAfter_congr (bind_of_ok hmade)]
  refine (memoryAfter_congr (bind_of_ok (log_apply _ _ _ left))).trans ?_
  refine (memoryAfter_bind_of_keeps (fun kernelEntry placed => ?_) _).trans ?_
  · refine (memoryAfter_congr (bind_of_ok (log_apply _ _ _ placed))).trans ?_
    exact (memoryAfter_bind_pure _ _ _).trans (memoryAfter_ofExcept _ _)
  · refine Related.memory (R := Eq) (placeKernel_of_sameMemory ?_ setup modules)
    rfl

/-- Once the stub can be called, the first failure is that of the kernel or else that of packing the
arguments. -/
theorem answer_readyStub_of_point (modules : Modules) (handoff : Handoff) :
    (setup.readyStub stub modules handoff).answer machine = do
      let kernelEntry ← (setup.placeKernel modules).answer (.ofMemory left.memory)
      let arguments ← (StubArguments.ofHandoff kernelEntry.address handoff).mapError .handover
      return ⟨point, .stub arguments⟩ := by
  rw [setup.answer_readyStub, answer_of_ok hstub, ok_bind, hpoint, memoryAfter_of_ok hstub]
  rfl

end Stubbed

end Setup

/-! ## All stages -/

/-- A step that boots by way of the stub, with a recording transfer, stops at its first stage that
fails, with the error of that stage, and leaves the effects of the stages before it.

If the stub is not loaded, or its entry is refused as that of 32-bit code, the step leaves what a
step that only places the stub leaves, and it has asked for nothing more. Otherwise memory is what
placing the stub and then the kernel leaves; that goes also if the kernel is not placed, or if its
entry and the handoff do not fit the arguments. The transfer is asked for a call only if no stage
before it fails, and then the stage that was called comes back. -/
theorem bootThroughStub_stops_at_first_failure (setup : Setup) (stub : Bytes) (modules : Modules)
    (handoff : Handoff) (memory : Memory) (calls : Nat) (last : Option Call) :
    let before : State := ⟨memory, .recording calls last⟩
    let stubbed := (Step.placeImage stub).perform setup before
    let placed := (Step.placeKernel modules).perform setup stubbed.state
    let report := (Step.bootThroughStub stub modules handoff).perform setup before
    (∀ fault, stubbed.outcome = .failed fault →
      report.outcome = .failed fault ∧ report.state = ⟨stubbed.state.memory, before.transfer⟩ ∧
        report.requests = stubbed.requests) ∧
    ∀ stubEntry, stubbed.outcome = .loaded stubEntry →
      (∀ fault, EntryPoint.ofAddress stubEntry.address .cdecl32 = .error fault →
        report.outcome = .failed (.handover fault) ∧
          report.state = ⟨stubbed.state.memory, before.transfer⟩ ∧
          report.requests = stubbed.requests) ∧
      ∀ point, EntryPoint.ofAddress stubEntry.address .cdecl32 = .ok point →
        report.state.memory = placed.state.memory ∧
        (∀ fault, placed.outcome = .failed fault →
          report.outcome = .failed fault ∧ report.state.transfer = before.transfer) ∧
        ∀ kernelEntry, placed.outcome = .loaded kernelEntry →
          (∀ fault, StubArguments.ofHandoff kernelEntry.address handoff = .error fault →
            report.outcome = .failed (.handover fault) ∧
              report.state.transfer = before.transfer) ∧
          ∀ arguments, StubArguments.ofHandoff kernelEntry.address handoff = .ok arguments →
            report.outcome = .failed (.handover .cameBack) ∧
              report.state.transfer =
                .recording (calls + 1) (some ⟨point, .stub arguments⟩) := by
  intro before stubbed placed report
  have hstubbed : stubbed =
      .ofPlacement before.transfer (setup.placeImage stub (.ofMemory memory)) := rfl
  cases hstub : setup.placeImage stub (.ofMemory memory) with
  | error cause left =>
    rw [hstub] at hstubbed
    simp only [hstubbed, Report.ofPlacement, Report.ofMachine]
    refine ⟨?_, nofun⟩
    rintro fault ⟨⟩
    exact Setup.perform_of_unready (Setup.readyBoth_of_noStub hstub handoff)
  | ok entry left =>
    rw [hstub] at hstubbed
    have hmemory : stubbed.state.memory = left.memory := by rw [hstubbed]; rfl
    have hrequests : stubbed.requests = left.requests := by rw [hstubbed]; rfl
    have houtcome : stubbed.outcome = .loaded entry := by rw [hstubbed]; rfl
    rw [hmemory, hrequests, houtcome]
    refine ⟨nofun, ?_⟩
    rintro stubEntry ⟨⟩
    refine ⟨fun fault hpoint => ?_, fun point hpoint => ?_⟩
    · exact Setup.perform_of_unready (Setup.readyBoth_of_refused hstub hpoint handoff)
    have hplaced : placed =
        .ofPlacement stubbed.state.transfer
          (setup.placeKernel modules (.ofMemory left.memory)) := by
      rw [← hmemory]
      rfl
    have hready := Setup.answer_readyStub_of_point hstub hpoint modules handoff
    refine ⟨?_, fun fault hkernel => ?_, fun kernelEntry hkernel => ?_⟩
    · rw [hplaced, Report.memory_ofPlacement, ← Setup.memoryAfter_readyStub hstub hpoint modules]
      exact Report.memory_ofBoot _ _ _
    · rw [hplaced, Report.failed_iff] at hkernel
      rw [hkernel] at hready
      exact Report.ofBoot_of_error _ hready
    · rw [hplaced, Report.loaded_iff] at hkernel
      rw [hkernel, ok_bind] at hready
      refine ⟨fun fault hpack => ?_, fun arguments hpack => ?_⟩
      · rw [hpack] at hready
        exact Report.ofBoot_of_error _ hready
      · rw [hpack] at hready
        exact Report.ofBoot_of_ok _ hready

/-- The boot information of the compact chain lies too high for the stub. Both stages are placed,
and nothing is called. -/
theorem bootThroughStub_stops_at_first_failure_wide :
    let before : State := ⟨compactMemory, .recording 0 none⟩
    let placed := (Step.placeKernel (.listed [delivery])).perform compact
      ((Step.placeImage (fileFor 0x1100)).perform compact before).state
    let report := (Step.bootThroughStub (fileFor 0x1100) (.listed [delivery])
      ⟨0x2BADB002, 0x1_0000_0000⟩).perform compact before
    placed.outcome = .loaded ⟨0x12B0, by decide⟩ ∧
      report.state.memory = placed.state.memory ∧ report.state.transfer = before.transfer ∧
      report.outcome = .failed (.handover (.tooWide .bootInfo 0x1_0000_0000)) := by
  have hstub : ((Step.placeImage (fileFor 0x1100)).perform compact
      ⟨compactMemory, .recording 0 none⟩).outcome = .loaded ⟨0x1100, by decide⟩ := by
    decide +kernel
  have hkernel : ((Step.placeKernel (.listed [delivery])).perform compact
      ((Step.placeImage (fileFor 0x1100)).perform compact
        ⟨compactMemory, .recording 0 none⟩).state).outcome = .loaded ⟨0x12B0, by decide⟩ := by
    decide +kernel
  obtain ⟨-, hstubbed⟩ := bootThroughStub_stops_at_first_failure compact (fileFor 0x1100)
    (.listed [delivery]) ⟨0x2BADB002, 0x1_0000_0000⟩ compactMemory 0 none
  obtain ⟨-, hpointed⟩ := hstubbed _ hstub
  obtain ⟨hmemory, -, hplaced⟩ := hpointed ⟨0x1100, .cdecl32, by decide, by decide⟩ rfl
  obtain ⟨hpacked, -⟩ := hplaced _ hkernel
  obtain ⟨houtcome, htransfer⟩ := hpacked (.tooWide .bootInfo 0x1_0000_0000) rfl
  exact ⟨hkernel, hmemory, htransfer, houtcome⟩

end Chainload.Chain
