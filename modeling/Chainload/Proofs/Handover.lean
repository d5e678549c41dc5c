import Chainload.Proofs.Confinement

/-!
# What is handed to the kernel by way of the stub

The stub takes the kernel's entry and the handoff in 32-bit arguments and widens them again before
it calls the kernel. Nothing is lost on this way: values that do not fit are refused
(`fit_of_wide`), and what fits comes back (`StubArguments.toHandoff_ofHandoff`).

`bootThroughStub_hands_over` says when a chain with a recording transfer calls the stub, in terms of
the steps that place the stub and the kernel on their own, and what the kernel then receives. It
needs that a step places the kernel in the same way on its own as after the stub in one step: what
placing answers depends on memory alone (`Setup.placeKernel_of_sameMemory`).
-/

namespace Chainload

open Chainload.Action

namespace Stage

/-! ## Entry points and arguments -/

/-- Whether a value fits a 32-bit argument. -/
def Narrow (value : UInt64) : Prop :=
  value ≤ 0xFFFF_FFFF

instance (value : UInt64) : Decidable (Narrow value) :=
  inferInstanceAs (Decidable (_ ≤ _))

theorem narrow_iff (value : UInt64) : Narrow value ↔ value.toNat < UInt32.size := by
  simp only [Narrow, UInt64.le_iff_toNat_le]
  exact Nat.lt_succ_iff.symm

/-- An address other than zero is an entry point of the stub if it is narrow. -/
theorem EntryPoint.ofAddress_cdecl32 {address : UInt64} (hne : address ≠ 0)
    (hnarrow : Narrow address) : ∃ point, ofAddress address .cdecl32 = .ok point := by
  have hreaches : Convention.cdecl32.width.reaches address = true := decide_eq_true hnarrow
  exact ⟨⟨address, .cdecl32, hne, hreaches⟩, ofAddress_eq_ok_iff.mpr ⟨rfl, rfl⟩⟩

theorem EntryPoint.narrow_of_cdecl32 {point : EntryPoint} (h : point.convention = .cdecl32) :
    Narrow point.address := by
  have hreaches := point.reaches
  rw [h] at hreaches
  exact of_decide_eq_true hreaches

/-- Every address other than zero is an entry point of the kernel. -/
theorem EntryPoint.ofAddress_sysv64 {address : UInt64} (hne : address ≠ 0) :
    ∃ point, ofAddress address .sysv64 = .ok point :=
  ⟨⟨address, .sysv64, hne, Width.reaches_bits64 address⟩, ofAddress_eq_ok_iff.mpr ⟨rfl, rfl⟩⟩

theorem fit_of_narrow {value : UInt64} (h : Narrow value) (slot : Slot) :
    fit slot value = .ok value.toUInt32 :=
  if_pos ((narrow_iff value).mp h)

theorem fit_of_wide {value : UInt64} (h : ¬Narrow value) (slot : Slot) :
    fit slot value = .error (.tooWide slot value) :=
  if_neg fun hfits => h ((narrow_iff value).mpr hfits)

namespace StubArguments

variable {kernelEntry : UInt64} {handoff : Handoff}

theorem ofHandoff_of_wideEntry (h : ¬Narrow kernelEntry) :
    ofHandoff kernelEntry handoff = .error (.tooWide .kernelEntry kernelEntry) := by
  rw [ofHandoff, fit_of_wide h]
  rfl

theorem ofHandoff_of_wideInfo (hentry : Narrow kernelEntry) (hinfo : ¬Narrow handoff.bootInfo) :
    ofHandoff kernelEntry handoff = .error (.tooWide .bootInfo handoff.bootInfo) := by
  rw [ofHandoff, fit_of_narrow hentry, fit_of_wide hinfo]
  rfl

theorem narrow_of_ofHandoff {arguments : StubArguments}
    (h : ofHandoff kernelEntry handoff = .ok arguments) :
    Narrow kernelEntry ∧ Narrow handoff.bootInfo := by
  by_cases hentry : Narrow kernelEntry
  case neg =>
    rw [ofHandoff_of_wideEntry hentry] at h
    cases h
  by_cases hinfo : Narrow handoff.bootInfo
  case neg =>
    rw [ofHandoff_of_wideInfo hentry hinfo] at h
    cases h
  exact ⟨hentry, hinfo⟩

/-- Narrow values come back from the arguments as they were. -/
theorem toHandoff_ofHandoff (hentry : Narrow kernelEntry) (hinfo : Narrow handoff.bootInfo) :
    ∃ arguments, ofHandoff kernelEntry handoff = .ok arguments ∧
      arguments.toHandoff = (kernelEntry, handoff) := by
  have hwiden : ∀ {value : UInt64}, Narrow value → value.toUInt32.toUInt64 = value := by
    intro value h
    rw [← UInt64.toNat_inj, UInt32.toNat_toUInt64, UInt64.toNat_toUInt32]
    exact Nat.mod_eq_of_lt ((narrow_iff value).mp h)
  refine ⟨⟨kernelEntry.toUInt32, handoff.magic, handoff.bootInfo.toUInt32⟩, ?_, ?_⟩
  · rw [ofHandoff, fit_of_narrow hentry, fit_of_narrow hinfo]
    rfl
  · simp only [toHandoff, hwiden hentry, hwiden hinfo]

end StubArguments

/-- The arguments of the stub lead to the kernel at an address: with whatever transfer it has, the
stub makes one call, of that address as 64-bit code and with the handoff. -/
def StubArguments.LeadTo (arguments : StubArguments) (address : UInt64) (handoff : Handoff) :
    Prop :=
  ∃ point : EntryPoint, point.address = address ∧ point.convention = .sysv64 ∧
    (∀ transfer : Transfer,
      transfer.fromStub arguments = transfer.perform ⟨point, .kernel handoff⟩) ∧
    (Transfer.fresh.fromStub arguments).transfer = .recording 1 (some ⟨point, .kernel handoff⟩)

/-- The stub widens its arguments to what they were made from. -/
theorem StubArguments.leadTo_of_toHandoff {arguments : StubArguments} {address : UInt64}
    {handoff : Handoff} (hne : address ≠ 0) (h : arguments.toHandoff = (address, handoff)) :
    arguments.LeadTo address handoff := by
  obtain ⟨point, hpoint⟩ := EntryPoint.ofAddress_sysv64 hne
  obtain ⟨haddress, hconvention⟩ := EntryPoint.ofAddress_eq_ok_iff.mp hpoint
  have hcalls : ∀ transfer : Transfer,
      transfer.fromStub arguments = transfer.perform ⟨point, .kernel handoff⟩ := by
    intro transfer
    simp only [Transfer.fromStub, h, hpoint]
  exact ⟨point, haddress, hconvention, hcalls, by rw [hcalls]; rfl⟩

end Stage

namespace Chain

open Elf Memory Multiboot Stage

/-! ## What getting ready answers -/

/-- After a line of the log an action answers what it does on every machine with that memory. -/
theorem answer_note {ε α : Type} {machine : Machine} (level : Log.Level) (message : String)
    {f : Unit → Action ε α} {result : Except ε α}
    (h : ∀ noted : Machine, noted.memory = machine.memory → (f ()).answer noted = result) :
    (note level message >>= f).answer machine = result := by
  rw [answer, note, bind_of_ok (log_apply level logTarget message machine)]
  exact h _ rfl

/-- Whether the stub can be called, and how, in terms of what placing the stub and the kernel
answers. -/
theorem Setup.answer_readyStub (setup : Setup) (stub : Bytes) (modules : Modules)
    (handoff : Handoff) (machine : Machine) :
    (setup.readyStub stub modules handoff).answer machine = do
      let stubEntry ← (setup.placeImage stub).answer machine
      let point ← (EntryPoint.ofAddress stubEntry.address .cdecl32).mapError .handover
      let kernelEntry ← (setup.placeKernel modules).answer
        (.ofMemory ((setup.placeImage stub).memoryAfter machine))
      let arguments ← (StubArguments.ofHandoff kernelEntry.address handoff).mapError .handover
      return ⟨point, .stub arguments⟩ := by
  rw [readyStub, answer_logError, readyBoth]
  refine answer_bind fun stubEntry stubbed hstub => ?_
  rw [memoryAfter_of_ok hstub, answer_ofExcept_bind]
  congr 1
  funext point
  refine answer_note _ _ fun noted hnoted => ?_
  have hkernel := placeKernel_of_sameMemory (n := .ofMemory stubbed.memory) hnoted setup modules
  rw [← hkernel.answer]
  refine answer_bind fun kernelEntry placed _ => ?_
  refine answer_note _ _ fun noted' _ => ?_
  rw [answer_ofExcept_bind]
  rfl

section Ready

variable {setup : Setup} {stub : Bytes} {modules : Modules} {handoff : Handoff} {machine : Machine}
  {stubEntry kernelEntry : Entry}

/-- If the stub can be called, then the stub and the kernel are placed, and everything that passes
through the stub's arguments is narrow. -/
theorem narrow_of_readyStub {call : Call}
    (h : (setup.readyStub stub modules handoff).answer machine = .ok call) :
    ∃ stubEntry kernelEntry, (setup.placeImage stub).answer machine = .ok stubEntry ∧
      Narrow stubEntry.address ∧
      (setup.placeKernel modules).answer
          (.ofMemory ((setup.placeImage stub).memoryAfter machine)) = .ok kernelEntry ∧
      Narrow kernelEntry.address ∧ Narrow handoff.bootInfo := by
  obtain ⟨ready, hready⟩ := ok_of_answer h
  obtain ⟨stubEntry, stubbed, hstub, haddress, hconvention, noted, hnoted, kernelEntry, placed,
    hkernel, -, arguments, harguments, -⟩ := Setup.placed_of_readyStub hready
  have hnarrow := EntryPoint.narrow_of_cdecl32 hconvention
  rw [haddress] at hnarrow
  have hsame := Setup.placeKernel_of_sameMemory (n := .ofMemory stubbed.memory) hnoted setup modules
  refine ⟨stubEntry, kernelEntry, answer_of_ok hstub, hnarrow, ?_,
    StubArguments.narrow_of_ofHandoff harguments⟩
  rw [memoryAfter_of_ok hstub, ← hsame.answer, answer_of_ok hkernel]

section Placed

variable (hstub : (setup.placeImage stub).answer machine = .ok stubEntry)
  (hnarrow : Narrow stubEntry.address)
  (hkernel : (setup.placeKernel modules).answer
    (.ofMemory ((setup.placeImage stub).memoryAfter machine)) = .ok kernelEntry)
include hstub hnarrow hkernel

/-- Once the stub and the kernel are placed and the stub's entry is narrow, it is up to the
arguments. -/
theorem answer_readyStub_of_placed (handoff : Handoff) :
    ∃ point : EntryPoint, point.address = stubEntry.address ∧ point.convention = .cdecl32 ∧
      (setup.readyStub stub modules handoff).answer machine = do
        let arguments ← (StubArguments.ofHandoff kernelEntry.address handoff).mapError .handover
        return ⟨point, .stub arguments⟩ := by
  obtain ⟨point, hpoint⟩ := EntryPoint.ofAddress_cdecl32 stubEntry.address_ne hnarrow
  obtain ⟨haddress, hconvention⟩ := EntryPoint.ofAddress_eq_ok_iff.mp hpoint
  refine ⟨point, haddress, hconvention, ?_⟩
  rw [setup.answer_readyStub, hstub, ok_bind, hpoint]
  show Except.ok point >>= _ = _
  rw [ok_bind, hkernel, ok_bind]

theorem readyStub_of_narrow (hentry : Narrow kernelEntry.address)
    (hinfo : Narrow handoff.bootInfo) :
    ∃ call arguments, (setup.readyStub stub modules handoff).answer machine = .ok call ∧
      call.entry.address = stubEntry.address ∧ call.entry.convention = .cdecl32 ∧
      call.arguments = .stub arguments ∧ arguments.LeadTo kernelEntry.address handoff := by
  obtain ⟨point, haddress, hconvention, hanswer⟩ :=
    answer_readyStub_of_placed hstub hnarrow hkernel handoff
  obtain ⟨arguments, hfits, hback⟩ := StubArguments.toHandoff_ofHandoff hentry hinfo
  refine ⟨⟨point, .stub arguments⟩, arguments, ?_, haddress, hconvention, rfl,
    StubArguments.leadTo_of_toHandoff kernelEntry.address_ne hback⟩
  rw [hanswer, hfits]
  rfl

theorem readyStub_of_wideEntry (hentry : ¬Narrow kernelEntry.address) :
    (setup.readyStub stub modules handoff).answer machine =
      .error (.handover (.tooWide .kernelEntry kernelEntry.address)) := by
  obtain ⟨_, _, _, hanswer⟩ := answer_readyStub_of_placed hstub hnarrow hkernel handoff
  rw [hanswer, StubArguments.ofHandoff_of_wideEntry hentry]
  rfl

theorem readyStub_of_wideInfo (hentry : Narrow kernelEntry.address)
    (hinfo : ¬Narrow handoff.bootInfo) :
    (setup.readyStub stub modules handoff).answer machine =
      .error (.handover (.tooWide .bootInfo handoff.bootInfo)) := by
  obtain ⟨_, _, _, hanswer⟩ := answer_readyStub_of_placed hstub hnarrow hkernel handoff
  rw [hanswer, StubArguments.ofHandoff_of_wideInfo hentry hinfo]
  rfl

end Placed

end Ready

/-- A chain with a recording transfer calls the stub exactly if the stub is placed, then the kernel,
and the entries of both and the address of the boot information are narrow. The call goes to the
entry of the stub, with arguments that lead to the kernel with the handoff. If it is only the entry
of the kernel or the address of the boot information that is too wide, then nothing is called, and
the error names the first of them that is. -/
theorem bootThroughStub_hands_over (setup : Setup) (stub : Bytes) (modules : Modules)
    (handoff : Handoff) (memory : Memory) (calls : Nat) (last : Option Call) :
    let before : State := ⟨memory, .recording calls last⟩
    let stubbed := (Step.placeImage stub).perform setup before
    let placed := (Step.placeKernel modules).perform setup stubbed.state
    let report := (Step.bootThroughStub stub modules handoff).perform setup before
    (report.state.transfer ≠ before.transfer ↔
      ∃ stubEntry kernelEntry, stubbed.outcome = .loaded stubEntry ∧ Narrow stubEntry.address ∧
        placed.outcome = .loaded kernelEntry ∧ Narrow kernelEntry.address ∧
        Narrow handoff.bootInfo) ∧
    ∀ stubEntry kernelEntry, stubbed.outcome = .loaded stubEntry → Narrow stubEntry.address →
      placed.outcome = .loaded kernelEntry →
        (Narrow kernelEntry.address → Narrow handoff.bootInfo → ∃ call arguments,
          report.state.transfer = .recording (calls + 1) (some call) ∧
          report.outcome = .failed (.handover .cameBack) ∧
          call.entry.address = stubEntry.address ∧ call.entry.convention = .cdecl32 ∧
          call.arguments = .stub arguments ∧ arguments.LeadTo kernelEntry.address handoff) ∧
        (¬Narrow kernelEntry.address → report.state.transfer = before.transfer ∧
          report.outcome = .failed (.handover (.tooWide .kernelEntry kernelEntry.address))) ∧
        (Narrow kernelEntry.address → ¬Narrow handoff.bootInfo →
          report.state.transfer = before.transfer ∧
          report.outcome = .failed (.handover (.tooWide .bootInfo handoff.bootInfo))) := by
  intro before stubbed placed report
  have hstub : ∀ entry, stubbed.outcome = .loaded entry ↔
      (setup.placeImage stub).answer (.ofMemory memory) = .ok entry :=
    fun _ => Report.loaded_iff
  have hmemory : stubbed.state.memory = (setup.placeImage stub).memoryAfter (.ofMemory memory) :=
    Report.memory_ofPlacement _ _ _
  have hkernel : ∀ entry, placed.outcome = .loaded entry ↔
      (setup.placeKernel modules).answer
        (.ofMemory ((setup.placeImage stub).memoryAfter (.ofMemory memory))) = .ok entry := by
    intro entry
    rw [← hmemory]
    exact Report.loaded_iff
  -- What is ready is performed, and what fails leaves the transfer as it was.
  have hready : ∀ call,
      (setup.readyStub stub modules handoff).answer (.ofMemory memory) = .ok call →
        report.state.transfer = .recording (calls + 1) (some call) ∧
          report.outcome = .failed (.handover .cameBack) :=
    fun call h => (Report.ofBoot_of_ok _ h).symm
  have hfailed : ∀ fault,
      (setup.readyStub stub modules handoff).answer (.ofMemory memory) = .error fault →
        report.state.transfer = before.transfer ∧ report.outcome = .failed fault :=
    fun fault h => (Report.ofBoot_of_error _ h).symm
  refine ⟨⟨fun hrecorded => ?_, ?_⟩, ?_⟩
  · cases hanswer : (setup.readyStub stub modules handoff).answer (.ofMemory memory) with
    | error fault => exact absurd (hfailed fault hanswer).1 hrecorded
    | ok call =>
      obtain ⟨stubEntry, kernelEntry, hs, hnarrow, hk, hfits⟩ := narrow_of_readyStub hanswer
      exact ⟨stubEntry, kernelEntry, (hstub _).mpr hs, hnarrow, (hkernel _).mpr hk, hfits⟩
  · rintro ⟨stubEntry, kernelEntry, hs, hnarrow, hk, hentry, hinfo⟩ hsame
    obtain ⟨call, arguments, hanswer, -⟩ :=
      readyStub_of_narrow ((hstub _).mp hs) hnarrow ((hkernel _).mp hk) hentry hinfo
    have hcalls := Transfer.recording.inj ((hready call hanswer).1.symm.trans hsame)
    exact absurd hcalls.1 (Nat.succ_ne_self calls)
  · intro stubEntry kernelEntry hs hnarrow hk
    rw [hstub] at hs
    rw [hkernel] at hk
    refine ⟨fun hentry hinfo => ?_, fun hwide => ?_, fun hentry hwide => ?_⟩
    · obtain ⟨call, arguments, hanswer, hcall⟩ :=
        readyStub_of_narrow hs hnarrow hk hentry hinfo
      obtain ⟨htransfer, houtcome⟩ := hready call hanswer
      exact ⟨call, arguments, htransfer, houtcome, hcall⟩
    · exact hfailed _ (readyStub_of_wideEntry hs hnarrow hk hwide)
    · exact hfailed _ (readyStub_of_wideInfo hs hnarrow hk hentry hwide)

/-- The compact chain hands its kernel over. -/
theorem bootThroughStub_hands_over_compact :
    ∃ call arguments,
      ((Step.bootThroughStub (fileFor 0x1100) (.listed [delivery]) ⟨0x2BADB002, 0x500⟩).perform
          compact ⟨compactMemory, .recording 0 none⟩).state.transfer = .recording 1 (some call) ∧
        call.entry.address = 0x1100 ∧ call.arguments = .stub arguments ∧
        arguments.LeadTo 0x12B0 ⟨0x2BADB002, 0x500⟩ := by
  have hstub : ((Step.placeImage (fileFor 0x1100)).perform compact
      ⟨compactMemory, .recording 0 none⟩).outcome = .loaded ⟨0x1100, by decide⟩ := by
    decide +kernel
  have hkernel : ((Step.placeKernel (.listed [delivery])).perform compact
      ((Step.placeImage (fileFor 0x1100)).perform compact
        ⟨compactMemory, .recording 0 none⟩).state).outcome = .loaded ⟨0x12B0, by decide⟩ := by
    decide +kernel
  obtain ⟨-, hhands⟩ := bootThroughStub_hands_over compact (fileFor 0x1100) (.listed [delivery])
    ⟨0x2BADB002, 0x500⟩ compactMemory 0 none
  obtain ⟨hcalled, -⟩ := hhands _ _ hstub (by decide) hkernel
  obtain ⟨call, arguments, htransfer, -, haddress, -, harguments, hlead⟩ :=
    hcalled (by decide) (by decide)
  exact ⟨call, arguments, htransfer, haddress, harguments, hlead⟩

end Chain

end Chainload
