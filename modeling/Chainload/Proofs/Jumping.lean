import Chainload.Proofs.Recording

/-!
# Jumping instead of recording

A recording transfer stands in for a jumping one where a chain is to be looked at and not to be
left. `jumping_follows_recording` says what a run with the one tells of the same run with the other.
Both leave the same memory and ask it for the same accesses. If nothing is recorded, both fail
alike. If a call of the kernel is recorded, the jump goes to its address and takes its handoff
along; a call of the stub cannot be made from long mode, and the jumping transfer says so.

The transfer has no part in what comes before the call (`Step.perform_alike`), so all depends on the
calls that a step can get ready: of the kernel as 64-bit code with a handoff, or of the stub as
32-bit code (`Step.jump_of_call`).
-/

namespace Chainload

open Chainload.Action Elf Stage

namespace Stage

/-! ## Jumps -/

/-- A pointer of the running machine holds every address, so a jumping transfer always tries. -/
theorem perform_jumping (call : Call) :
    (Transfer.jumping.perform call).departure = jump call := by
  have hreaches : Width.native.reaches call.entry.address = true := Width.reaches_bits64 _
  rw [Transfer.perform, if_pos hreaches]

theorem jump_of_kernel {call : Call} {handoff : Handoff} (hentry : call.entry.convention = .sysv64)
    (harguments : call.arguments = .kernel handoff) :
    jump call = .jumped ⟨call.entry.address, handoff⟩ := by
  simp only [jump, hentry, harguments]

theorem jump_of_stub {call : Call} (hentry : call.entry.convention = .cdecl32) :
    jump call = .failed (.foreignCall .cdecl32) := by
  simp only [jump, hentry]

/-- A jump is not kept from an address by its size. -/
theorem jump_ne_entryBeyondReach (call : Call) (address : UInt64) (convention : Convention) :
    jump call ≠ .failed (.entryBeyondReach address convention) := by
  unfold jump
  split <;> simp

/-- The stub calls the kernel as 64-bit code with the handoff that its arguments carry, unless the
address of the kernel is zero. -/
theorem fromStub_cases (arguments : StubArguments) :
    (arguments.kernelEntry = 0 ∧ ∀ transfer : Transfer,
      transfer.fromStub arguments = ⟨.failed .entryZero, transfer, []⟩) ∨
    ∃ point : EntryPoint, point.convention = .sysv64 ∧ ∀ transfer : Transfer,
      transfer.fromStub arguments = transfer.perform ⟨point, .kernel arguments.toHandoff.2⟩ := by
  by_cases hzero : arguments.kernelEntry = 0
  · refine Or.inl ⟨hzero, fun transfer => ?_⟩
    simp only [Transfer.fromStub, StubArguments.toHandoff, hzero]
    rfl
  · have hne : arguments.toHandoff.1 ≠ 0 := by
      intro hwide
      rw [← UInt64.toNat_inj] at hwide
      exact hzero (UInt32.toNat_inj.mp hwide)
    obtain ⟨point, hpoint⟩ := EntryPoint.ofAddress_sysv64 hne
    refine Or.inr ⟨point, (EntryPoint.ofAddress_eq_ok_iff.mp hpoint).2, fun transfer => ?_⟩
    simp only [Transfer.fromStub, hpoint]

end Stage

namespace Chain

open Multiboot

variable {setup : Setup} {step : Step} {memory : Memory}

/-! ## Steps that boot -/

/-- Whether a step enters the kernel by way of the stub. -/
def Step.viaStub : Step → Bool
  | .bootThroughStub .. => true
  | .placeImage .. | .placeModule .. | .placeKernel .. | .bootImage .. | .bootModule .. => false

/-- The transfer has no part in what a step leaves in memory and asks of it. -/
theorem Step.perform_alike (setup : Setup) (step : Step) (memory : Memory)
    (transfer transfer' : Transfer) :
    (step.perform setup ⟨memory, transfer⟩).state.memory =
        (step.perform setup ⟨memory, transfer'⟩).state.memory ∧
      (step.perform setup ⟨memory, transfer⟩).requests =
        (step.perform setup ⟨memory, transfer'⟩).requests := by
  have hplace : ∀ result : EStateM.Result Fault Machine Entry,
      (Report.ofPlacement transfer result).state.memory =
          (Report.ofPlacement transfer' result).state.memory ∧
        (Report.ofPlacement transfer result).requests =
          (Report.ofPlacement transfer' result).requests := by
    rintro (_ | _) <;> exact ⟨rfl, rfl⟩
  have hboot : ∀ result : EStateM.Result Fault Machine Call,
      (Report.ofBoot transfer result).state.memory =
          (Report.ofBoot transfer' result).state.memory ∧
        (Report.ofBoot transfer result).requests =
          (Report.ofBoot transfer' result).requests := by
    rintro (_ | _) <;> exact ⟨rfl, rfl⟩
  cases step with
  | placeImage | placeModule | placeKernel => exact hplace _
  | bootImage | bootModule | bootThroughStub => exact hboot _

/-- A step with a handoff gets no call ready, and fails alike with every transfer and leaves it as
it was, or it has every transfer make one and the same call. -/
theorem Step.perform_of_handoff {handoff : Handoff} (h : step.handoff? = some handoff)
    (setup : Setup) (memory : Memory) :
    (∃ fault, (∀ cause, fault = .handover cause → ¬cause.OfCall) ∧ ∀ transfer : Transfer,
      (step.perform setup ⟨memory, transfer⟩).outcome = .failed fault ∧
        (step.perform setup ⟨memory, transfer⟩).state.transfer = transfer) ∨
    ∃ call, step.call? setup memory = some call ∧ ∀ transfer : Transfer,
      (step.perform setup ⟨memory, transfer⟩).outcome =
          .ofDeparture (transfer.perform call).departure ∧
        (step.perform setup ⟨memory, transfer⟩).state.transfer =
          (transfer.perform call).transfer := by
  obtain ⟨booting, hbooting, hperform⟩ := Step.perform_of_boots h setup
  simp only [hperform]
  cases hanswer : booting.answer (.ofMemory memory) with
  | error fault =>
    refine Or.inl ⟨fault, ?_, fun transfer => Report.ofBoot_of_error transfer hanswer⟩
    rintro cause rfl
    exact (Step.booting_makesNoCall hbooting).not_ofCall_of_answer hanswer
  | ok call =>
    refine Or.inr ⟨call, ?_, fun transfer => Report.ofBoot_of_ok transfer hanswer⟩
    simp [Step.call?, hbooting, hanswer, Except.toOption]

/-- The kernel is called as 64-bit code with the handoff of the step, and a jump arrives there. The
stub is called as 32-bit code, and there is no such jump. -/
theorem Step.jump_of_call {handoff : Handoff} {call : Call}
    (hhandoff : step.handoff? = some handoff) (h : step.call? setup memory = some call) :
    if step.viaStub then
      call.entry.convention = .cdecl32 ∧ jump call = .failed (.foreignCall .cdecl32)
    else
      call.arguments = .kernel handoff ∧ jump call = .jumped ⟨call.entry.address, handoff⟩ := by
  obtain ⟨booting, hbooting, hanswer⟩ := Option.bind_eq_some_iff.mp h
  obtain ⟨ready, hready⟩ := ok_of_answer (Except.toOption_eq_some_iff.mp hanswer)
  cases step with
  | placeImage | placeModule | placeKernel => cases hbooting
  | bootImage | bootModule =>
    cases hbooting
    cases hhandoff
    obtain ⟨_, -, -, hconvention, harguments⟩ := placed_of_direct hready
    exact ⟨harguments, jump_of_kernel hconvention harguments⟩
  | bootThroughStub =>
    cases hbooting
    obtain ⟨_, _, _, _, hconvention, -⟩ := Setup.placed_of_readyStub hready
    exact ⟨hconvention, jump_of_stub hconvention⟩

/-! ## Both transfers side by side -/

/-- What a step that boots does with a recording transfer tells what it does with a jumping one.
Memory is left the same and asked for the same. A step that does not report that the stage came back
made no call, and fails alike with a jump. One that does has recorded its call. If it enters the
kernel directly, the jump goes to the address that was recorded, with the handoff that was recorded.
By way of the stub there is no jump.

The same goes for the stub when it calls the kernel with whatever arguments it was given. Nowhere
are there arguments that do not belong to the convention, and no address is too wide for a jump. -/
theorem jumping_follows_recording (setup : Setup) (memory : Memory) (calls : Nat)
    (last : Option Call) :
    (∀ (step : Step) (handoff : Handoff), step.handoff? = some handoff →
      let recorded := step.perform setup ⟨memory, .recording calls last⟩
      let jumping := step.perform setup ⟨memory, .jumping⟩
      (jumping.state.memory = recorded.state.memory ∧ jumping.requests = recorded.requests) ∧
      (recorded.outcome ≠ .failed (.handover .cameBack) →
        (∃ fault, recorded.outcome = .failed fault) ∧ jumping.outcome = recorded.outcome ∧
          recorded.state.transfer = .recording calls last) ∧
      (recorded.outcome = .failed (.handover .cameBack) → ∃ call,
        recorded.state.transfer = .recording (calls + 1) (some call) ∧
        (step.viaStub = false → call.arguments = .kernel handoff ∧
          jumping.outcome = .jumped ⟨call.entry.address, handoff⟩) ∧
        (step.viaStub = true → call.entry.convention = .cdecl32 ∧
          jumping.outcome = .failed (.handover (.foreignCall .cdecl32)))) ∧
      ∀ convention, recorded.outcome ≠ .failed (.handover (.wrongArguments convention)) ∧
        jumping.outcome ≠ .failed (.handover (.wrongArguments convention))) ∧
    (∀ arguments : StubArguments,
      let recorded := (Transfer.recording calls last).fromStub arguments
      let jumping := Transfer.jumping.fromStub arguments
      (recorded.departure ≠ .failed .cameBack →
        (∃ fault, recorded.departure = .failed fault) ∧ jumping.departure = recorded.departure ∧
          recorded.transfer = .recording calls last) ∧
      (recorded.departure = .failed .cameBack → ∃ call handoff,
        recorded.transfer = .recording (calls + 1) (some call) ∧
        call.arguments = .kernel handoff ∧
        jumping.departure = .jumped ⟨call.entry.address, handoff⟩) ∧
      ∀ convention, recorded.departure ≠ .failed (.wrongArguments convention) ∧
        jumping.departure ≠ .failed (.wrongArguments convention)) ∧
    ∀ (call : Call) (address : UInt64) (convention : Convention),
      (Transfer.jumping.perform call).departure ≠
        .failed (.entryBeyondReach address convention) := by
  refine ⟨fun step handoff hhandoff => ?_, fun arguments => ?_, fun call address convention => ?_⟩
  · intro recorded jumping
    refine ⟨step.perform_alike setup memory _ _, ?_⟩
    rcases Step.perform_of_handoff hhandoff setup memory with
      ⟨fault, hnocall, hfailed⟩ | ⟨call, hcall, hcalled⟩
    · have hrecorded : recorded.outcome = .failed fault := (hfailed _).1
      have hjumping : jumping.outcome = .failed fault := (hfailed _).1
      refine ⟨fun _ => ⟨⟨fault, hrecorded⟩, hjumping.trans hrecorded.symm, (hfailed _).2⟩,
        fun hback => ?_, fun convention => ?_⟩
      · rw [hrecorded] at hback
        exact absurd trivial (hnocall _ (Outcome.failed.inj hback))
      · rw [hrecorded, hjumping, and_self]
        intro hwrong
        exact hnocall _ (Outcome.failed.inj hwrong) trivial
    · have hrecorded : recorded.outcome = .failed (.handover .cameBack) := (hcalled _).1
      have hjumping : jumping.outcome = .ofDeparture (jump call) := by
        rw [← perform_jumping]
        exact (hcalled .jumping).1
      have hjump := Step.jump_of_call hhandoff hcall
      cases hstub : step.viaStub with
      | false =>
        rw [hstub] at hjump
        obtain ⟨harguments, hjumped⟩ := hjump
        rw [hrecorded, hjumping, hjumped]
        exact ⟨fun hother => absurd rfl hother,
          fun _ => ⟨call, (hcalled _).2, fun _ => ⟨harguments, rfl⟩, nofun⟩,
          fun convention => ⟨nofun, nofun⟩⟩
      | true =>
        rw [hstub] at hjump
        obtain ⟨hconvention, hforeign⟩ := hjump
        rw [hrecorded, hjumping, hforeign]
        exact ⟨fun hother => absurd rfl hother,
          fun _ => ⟨call, (hcalled _).2, nofun, fun _ => ⟨hconvention, rfl⟩⟩,
          fun convention => ⟨nofun, nofun⟩⟩
  · intro recorded jumping
    rcases fromStub_cases arguments with ⟨-, hfailed⟩ | ⟨point, hconvention, hcalled⟩
    · have hrecorded : recorded = ⟨.failed .entryZero, .recording calls last, []⟩ := hfailed _
      have hjumping : jumping = ⟨.failed .entryZero, .jumping, []⟩ := hfailed _
      simp [hrecorded, hjumping]
    · have hrecorded : recorded.departure = .failed .cameBack := by
        rw [show recorded = _ from hcalled _]
        rfl
      have hjumping : jumping.departure = .jumped ⟨point.address, arguments.toHandoff.2⟩ := by
        rw [show jumping = _ from hcalled _, perform_jumping, jump_of_kernel hconvention rfl]
      refine ⟨fun hother => absurd hrecorded hother, fun _ =>
        ⟨⟨point, .kernel arguments.toHandoff.2⟩, _, ?_, rfl, hjumping⟩,
        fun convention => by simp [hrecorded, hjumping]⟩
      rw [show recorded = _ from hcalled _]
      rfl
  · rw [perform_jumping]
    exact jump_ne_entryBeyondReach call address convention

/-- The kernel of the compact chain comes as a module. The jump goes where the recorded call goes
and takes the handoff along. -/
theorem jumping_follows_recording_compact :
    let step := Step.bootModule (.listed [delivery]) ⟨0x2BADB002, 0x500⟩
    let recorded := step.perform compact ⟨compactMemory, .recording 0 none⟩
    (step.handoff? = some ⟨0x2BADB002, 0x500⟩ ∧
        recorded.outcome = .failed (.handover .cameBack)) ∧
      ∃ call, recorded.state.transfer = .recording 1 (some call) ∧
        (step.perform compact ⟨compactMemory, .jumping⟩).outcome =
          .jumped ⟨call.entry.address, ⟨0x2BADB002, 0x500⟩⟩ := by
  have hback : ((Step.bootModule (.listed [delivery]) ⟨0x2BADB002, 0x500⟩).perform compact
      ⟨compactMemory, .recording 0 none⟩).outcome = .failed (.handover .cameBack) := by
    decide +kernel
  obtain ⟨-, -, hcalled, -⟩ :=
    (jumping_follows_recording compact compactMemory 0 none).1
      (.bootModule (.listed [delivery]) ⟨0x2BADB002, 0x500⟩) _ rfl
  obtain ⟨call, htransfer, hdirect, -⟩ := hcalled hback
  obtain ⟨-, hjumped⟩ := hdirect rfl
  refine ⟨⟨rfl, hback⟩, call, ?_, ?_⟩
  · exact htransfer
  · exact hjumped

end Chain

end Chainload
