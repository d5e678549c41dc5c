import Chainload.Chain.Step
import Chainload.Proofs.Runs

/-!
# What a step reports

A step runs one action: one that places a stage (`Step.placing?`), or one that gets a call ready
(`Step.booting?`). The report follows from what the action answers. If it places a stage, or gets no
call ready, the transfer stays as it was; otherwise the transfer performs the call.

The call is made up of what was placed: directly with the entry of the kernel and the handoff
(`placed_of_direct`), or by way of the stub with the entry of the stub and the arguments that it
takes (`Setup.placed_of_readyStub`).
-/

namespace Chainload

open Chainload.Action Elf Stage

/-- An address becomes exactly the entry point that has it. -/
theorem Stage.EntryPoint.ofAddress_eq_ok_iff {address : UInt64} {convention : Convention}
    {point : EntryPoint} :
    ofAddress address convention = .ok point ↔
      point.address = address ∧ point.convention = convention := by
  constructor
  · intro h
    unfold ofAddress at h
    split at h
    · cases h
    · split at h
      · cases h
        exact ⟨rfl, rfl⟩
      · cases h
  · rintro ⟨rfl, rfl⟩
    rw [ofAddress, dif_neg point.address_ne, dif_pos point.reaches]

@[simp] theorem Except.mapError_eq_ok_iff {ε ε' α : Type} {f : ε → ε'} {result : Except ε α}
    {a : α} : result.mapError f = .ok a ↔ result = .ok a := by
  cases result with
  | ok b =>
    show Except.ok b = .ok a ↔ _
    simp only [Except.ok.injEq]
  | error e =>
    show Except.error (f e) = .ok a ↔ _
    simp only [reduceCtorEq]

@[simp] theorem Except.toOption_eq_some_iff {ε α : Type} {result : Except ε α} {a : α} :
    result.toOption = some a ↔ result = .ok a := by
  cases result <;> simp [Except.toOption]

namespace Chain

variable {setup : Setup} {step : Step} {state : State} {transfer : Transfer} {machine : Machine}
  {call : Call} {handoff : Handoff}

/-! ## Reports -/

namespace Report

variable {placing : Action Fault Entry} {booting : Action Fault Call} {entry : Entry}
  {fault : Fault}

@[simp] theorem memory_ofPlacement (transfer : Transfer) (placing : Action Fault Entry)
    (machine : Machine) :
    (ofPlacement transfer (placing machine)).state.memory = placing.memoryAfter machine := by
  unfold memoryAfter
  cases placing machine <;> rfl

@[simp] theorem memory_ofBoot (transfer : Transfer) (booting : Action Fault Call)
    (machine : Machine) :
    (ofBoot transfer (booting machine)).state.memory = booting.memoryAfter machine := by
  unfold memoryAfter
  cases booting machine <;> rfl

/-- To place a stage leaves the transfer alone. -/
@[simp] theorem transfer_ofPlacement (transfer : Transfer)
    (result : EStateM.Result Fault Machine Entry) :
    (ofPlacement transfer result).state.transfer = transfer := by
  cases result <;> rfl

theorem outcome_ofPlacement (transfer : Transfer) (placing : Action Fault Entry)
    (machine : Machine) :
    (ofPlacement transfer (placing machine)).outcome =
      match placing.answer machine with
      | .ok entry => .loaded entry
      | .error fault => .failed fault := by
  unfold answer
  cases placing machine <;> rfl

theorem loaded_iff :
    (ofPlacement transfer (placing machine)).outcome = .loaded entry ↔
      placing.answer machine = .ok entry := by
  rw [outcome_ofPlacement]
  cases placing.answer machine <;> simp

theorem failed_iff :
    (ofPlacement transfer (placing machine)).outcome = .failed fault ↔
      placing.answer machine = .error fault := by
  rw [outcome_ofPlacement]
  cases placing.answer machine <;> simp

/-- Without a call the transfer is left alone. -/
theorem ofBoot_of_error (transfer : Transfer) (h : booting.answer machine = .error fault) :
    (ofBoot transfer (booting machine)).outcome = .failed fault ∧
      (ofBoot transfer (booting machine)).state.transfer = transfer := by
  obtain ⟨left, hrun⟩ := error_of_answer h
  rw [hrun]
  exact ⟨rfl, rfl⟩

/-- A call that is ready is performed. -/
theorem ofBoot_of_ok (transfer : Transfer) (h : booting.answer machine = .ok call) :
    (ofBoot transfer (booting machine)).outcome = .ofDeparture (transfer.perform call).departure ∧
      (ofBoot transfer (booting machine)).state.transfer = (transfer.perform call).transfer := by
  obtain ⟨left, hrun⟩ := ok_of_answer h
  rw [hrun]
  exact ⟨rfl, rfl⟩

end Report

/-! ## The action of a step -/

namespace Step

/-- What a step runs that places a stage. -/
def placing? (setup : Setup) : Step → Option (Action Fault Entry)
  | .placeImage image => some (setup.placeImage image)
  | .placeModule modules => some (setup.placeModule modules)
  | .placeKernel modules => some (setup.placeKernel modules)
  | .bootImage .. | .bootModule .. | .bootThroughStub .. => none

/-- What a step runs that boots, up to the call. -/
def booting? (setup : Setup) : Step → Option (Action Fault Call)
  | .bootImage image handoff => some (setup.readyImage image handoff)
  | .bootModule modules handoff => some (setup.readyModule modules handoff)
  | .bootThroughStub stub modules handoff => some (setup.readyStub stub modules handoff)
  | .placeImage .. | .placeModule .. | .placeKernel .. => none

/-- What the kernel is to receive of a step that boots. -/
def handoff? : Step → Option Handoff
  | .bootImage _ handoff | .bootModule _ handoff | .bootThroughStub _ _ handoff => some handoff
  | .placeImage .. | .placeModule .. | .placeKernel .. => none

/-- What a step that boots runs to place the stage that it enters, and how it enters it: a kernel
with the convention of the running machine, a stub with its own. -/
def entering? (setup : Setup) : Step → Option (Action Fault Entry × Convention)
  | .bootImage image _ => some (setup.placeImage image, .sysv64)
  | .bootModule modules _ => some (setup.placeModule modules, .sysv64)
  | .bootThroughStub stub _ _ => some (setup.placeImage stub, .cdecl32)
  | .placeImage .. | .placeModule .. | .placeKernel .. => none

/-- The call that a step gets ready, if it does. -/
def call? (setup : Setup) (memory : Memory) (step : Step) : Option Call := do
  let booting ← step.booting? setup
  (booting.answer (.ofMemory memory)).toOption

/-- Every step either places a stage or boots. -/
theorem perform_cases (setup : Setup) (state : State) (step : Step) :
    (∃ placing, step.placing? setup = some placing ∧
        step.perform setup state =
          .ofPlacement state.transfer (placing (.ofMemory state.memory))) ∨
      ∃ booting, step.booting? setup = some booting ∧
        step.perform setup state = .ofBoot state.transfer (booting (.ofMemory state.memory)) := by
  cases step with
  | placeImage | placeModule | placeKernel => exact Or.inl ⟨_, rfl, rfl⟩
  | bootImage | bootModule | bootThroughStub => exact Or.inr ⟨_, rfl, rfl⟩

/-- A step with a handoff boots. -/
theorem perform_of_boots (h : step.handoff? = some handoff) (setup : Setup) :
    ∃ booting, step.booting? setup = some booting ∧ ∀ state : State,
      step.perform setup state = .ofBoot state.transfer (booting (.ofMemory state.memory)) := by
  cases step with
  | placeImage | placeModule | placeKernel => cases h
  | bootImage | bootModule | bootThroughStub => exact ⟨_, rfl, fun _ => rfl⟩

end Step

/-! ## What a call is made of -/

/-- A direct call goes to the entry of the kernel and passes the handoff on. -/
theorem directCall_eq_ok {entry : Entry} (h : directCall entry handoff = .ok call) :
    call.entry.address = entry.address ∧ call.entry.convention = .sysv64 ∧
      call.arguments = .kernel handoff := by
  unfold directCall at h
  split at h
  · rename_i point hpoint
    cases h
    obtain ⟨haddress, hconvention⟩ := EntryPoint.ofAddress_eq_ok_iff.mp hpoint
    exact ⟨haddress, hconvention, rfl⟩
  · cases h

/-- A direct call is ready once the kernel is placed. -/
theorem placed_of_direct {placing : Action Fault Entry} {ready : Machine}
    (h : (placing >>= fun entry => Action.ofExcept (directCall entry handoff)) machine =
      .ok call ready) :
    ∃ entry, placing machine = .ok entry ready ∧ call.entry.address = entry.address ∧
      call.entry.convention = .sysv64 ∧ call.arguments = .kernel handoff := by
  obtain ⟨entry, placed, hplaced, hcall⟩ := bind_eq_ok_iff.mp h
  obtain ⟨hdirect, rfl⟩ := ofExcept_eq_ok_iff.mp hcall
  exact ⟨entry, hplaced, directCall_eq_ok hdirect⟩

/-- The call of the stub is ready once the stub is placed and then the kernel, with the entry of the
stub and the arguments that tell it of the kernel. -/
theorem Setup.placed_of_readyStub {stub : Bytes} {modules : Modules} {ready : Machine}
    (h : setup.readyStub stub modules handoff machine = .ok call ready) :
    ∃ stubEntry stubbed, setup.placeImage stub machine = .ok stubEntry stubbed ∧
      call.entry.address = stubEntry.address ∧ call.entry.convention = .cdecl32 ∧
      ∃ noted : Machine, noted.memory = stubbed.memory ∧
        ∃ kernelEntry placed, setup.placeKernel modules noted = .ok kernelEntry placed ∧
          ready.memory = placed.memory ∧
          ∃ arguments, StubArguments.ofHandoff kernelEntry.address handoff = .ok arguments ∧
            call.arguments = .stub arguments := by
  have hboth : setup.readyBoth stub modules handoff machine = .ok call ready :=
    logError_eq_ok_iff.mp h
  obtain ⟨stubEntry, stubbed, hstub, hfound⟩ := bind_eq_ok_iff.mp hboth
  obtain ⟨point, _, hentered, hnoted⟩ := bind_eq_ok_iff.mp hfound
  obtain ⟨hpoint, rfl⟩ := ofExcept_eq_ok_iff.mp hentered
  obtain ⟨⟨⟩, noted, ⟨⟩, hplaced⟩ := bind_eq_ok_iff.mp hnoted
  obtain ⟨kernelEntry, placed, hkernel, hnoted'⟩ := bind_eq_ok_iff.mp hplaced
  obtain ⟨⟨⟩, _, ⟨⟩, hpacked⟩ := bind_eq_ok_iff.mp hnoted'
  obtain ⟨arguments, _, hfitted, hcall⟩ := bind_eq_ok_iff.mp hpacked
  obtain ⟨harguments, rfl⟩ := ofExcept_eq_ok_iff.mp hfitted
  obtain ⟨haddress, hconvention⟩ :=
    EntryPoint.ofAddress_eq_ok_iff.mp (Except.mapError_eq_ok_iff.mp hpoint)
  cases hcall
  refine ⟨stubEntry, _, hstub, haddress, hconvention, _, ?_, kernelEntry, placed, hkernel, rfl,
    arguments, Except.mapError_eq_ok_iff.mp harguments, rfl⟩
  rfl

/-- The stub is called with its own arguments, the kernel with the handoff of the step. -/
theorem Step.arguments_of_call {memory : Memory} (h : step.call? setup memory = some call) :
    ∃ handoff, step.handoff? = some handoff ∧
      (call.entry.convention = .cdecl32 → ∃ arguments, call.arguments = .stub arguments) ∧
      (call.entry.convention = .sysv64 → call.arguments = .kernel handoff) := by
  obtain ⟨booting, hbooting, hanswer⟩ := Option.bind_eq_some_iff.mp h
  obtain ⟨ready, hready⟩ := ok_of_answer (Except.toOption_eq_some_iff.mp hanswer)
  cases step with
  | placeImage | placeModule | placeKernel => cases hbooting
  | bootImage _ handoff | bootModule _ handoff =>
    cases hbooting
    obtain ⟨_, -, -, hconvention, harguments⟩ := placed_of_direct hready
    exact ⟨handoff, rfl, (nomatch hconvention.symm.trans ·), fun _ => harguments⟩
  | bootThroughStub stub modules handoff =>
    cases hbooting
    obtain ⟨_, _, _, _, hconvention, _, _, _, _, _, _, arguments, _, harguments⟩ :=
      Setup.placed_of_readyStub hready
    refine ⟨handoff, rfl, fun _ => ⟨arguments, harguments⟩, fun hsysv => ?_⟩
    rw [hconvention] at hsysv
    cases hsysv

/-- The call goes to where the stage was placed. -/
theorem Step.entering_of_call {memory : Memory} (h : step.call? setup memory = some call) :
    ∃ placing entry, step.entering? setup = some (placing, call.entry.convention) ∧
      placing.answer (.ofMemory memory) = .ok entry ∧ call.entry.address = entry.address := by
  obtain ⟨booting, hbooting, hanswer⟩ := Option.bind_eq_some_iff.mp h
  obtain ⟨ready, hready⟩ := ok_of_answer (Except.toOption_eq_some_iff.mp hanswer)
  cases step with
  | placeImage | placeModule | placeKernel => cases hbooting
  | bootImage | bootModule =>
    cases hbooting
    obtain ⟨entry, hplaced, haddress, hconvention, -⟩ := placed_of_direct hready
    exact ⟨_, entry, by rw [hconvention]; rfl, answer_of_ok hplaced, haddress⟩
  | bootThroughStub =>
    cases hbooting
    obtain ⟨entry, _, hplaced, haddress, hconvention, -⟩ := Setup.placed_of_readyStub hready
    exact ⟨_, entry, by rw [hconvention]; rfl, answer_of_ok hplaced, haddress⟩

end Chain

end Chainload
