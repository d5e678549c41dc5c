import Chainload.Proofs.Handover

/-!
# What a recording transfer recorded

A recording transfer counts the calls that it is asked for and keeps the last one, and each of them
comes back. `run_records` says that after any number of steps it has counted exactly the steps that
report that the stage came back, and that it holds the call of the last of them.

A step asks for at most one call, and only if everything before has succeeded. What comes before
makes no call (`MakesNoCall`), so it does not fail with a fault that only a call has, such as
`Stage.Fault.cameBack`, and the report of a step tells whether it asked for a call
(`Step.perform_records`). The rest is by induction on the steps.
-/

namespace Chainload

open Chainload.Action Elf Multiboot Stage

/-! ## Faults of calls -/

/-- Only a call has the fault. The other ones are found before a call is made. -/
def Stage.Fault.OfCall : Stage.Fault → Prop
  | .entryZero | .entryBeyondReach .. | .tooWide .. => False
  | .foreignCall _ | .wrongArguments _ | .cameBack => True

namespace Chain

/-- If the action fails to hand over control, then not with a fault that only a call has. -/
structure MakesNoCall {α : Type} (action : Action Fault α) : Prop where
  not_ofCall : ∀ {machine left fault}, action machine = .error (.handover fault) left →
    ¬fault.OfCall

namespace MakesNoCall

variable {α β ε : Type} {action : Action Fault α}

theorem not_ofCall_of_answer (h : MakesNoCall action) {machine : Machine} {fault : Stage.Fault}
    (hanswer : action.answer machine = .error (.handover fault)) : ¬fault.OfCall := by
  obtain ⟨left, hrun⟩ := error_of_answer hanswer
  exact h.not_ofCall hrun

theorem ne_of_answer (h : MakesNoCall action) {machine : Machine} {fault : Fault}
    (hanswer : action.answer machine = .error fault) : fault ≠ .handover .cameBack := by
  rintro rfl
  exact h.not_ofCall_of_answer hanswer trivial

theorem bind {f : α → Action Fault β} (h : MakesNoCall action) (hf : ∀ a, MakesNoCall (f a)) :
    MakesNoCall (action >>= f) where
  not_ofCall hrun := by
    rcases bind_eq_error_iff.mp hrun with hfirst | ⟨a, between, -, hsecond⟩
    · exact h.not_ofCall hfirst
    · exact (hf a).not_ofCall hsecond

theorem mapError {f : ε → Fault} (action : Action ε α) (h : ∀ e fault, f e ≠ .handover fault) :
    MakesNoCall (action.mapError f) where
  not_ofCall {machine left fault} hrun := by
    obtain ⟨cause, -, hcause⟩ := mapError_eq_error_iff.mp hrun
    exact absurd hcause (h cause fault)

theorem ofExcept {result : Except Fault α}
    (h : ∀ fault, result = .error (.handover fault) → ¬fault.OfCall) :
    MakesNoCall (Action.ofExcept result) where
  not_ofCall hrun := by
    cases result with
    | ok a => cases hrun
    | error fault =>
      cases hrun
      exact h _ rfl

theorem logError (h : MakesNoCall action) (line : Fault → Log.Record) :
    MakesNoCall (action.logError line) where
  not_ofCall {machine left fault} hrun := by
    rw [logError_apply] at hrun
    cases hfirst : action machine with
    | ok a after =>
      rw [hfirst] at hrun
      cases hrun
    | error fault after =>
      rw [hfirst] at hrun
      cases hrun
      exact h.not_ofCall hfirst

theorem note (level : Log.Level) (message : String) : MakesNoCall (note level message) where
  not_ofCall hrun := nomatch hrun

theorem pure (a : α) : MakesNoCall (Pure.pure a) where
  not_ofCall hrun := nomatch hrun

end MakesNoCall

theorem not_ofCall_of_ofAddress {address : UInt64} {convention : Convention} {fault : Stage.Fault}
    (h : EntryPoint.ofAddress address convention = .error fault) : ¬fault.OfCall := by
  unfold EntryPoint.ofAddress at h
  split at h
  · cases h
    exact id
  · split at h <;> cases h
    exact id

theorem not_ofCall_of_directCall {entry : Entry} {handoff : Handoff} {fault : Stage.Fault}
    (h : directCall entry handoff = .error (.handover fault)) : ¬fault.OfCall := by
  unfold directCall at h
  split at h
  · cases h
  · rename_i hpoint
    cases h
    exact not_ofCall_of_ofAddress hpoint

theorem not_ofCall_of_ofHandoff {kernelEntry : UInt64} {handoff : Handoff} {fault : Stage.Fault}
    (h : StubArguments.ofHandoff kernelEntry handoff = .error fault) : ¬fault.OfCall := by
  by_cases hentry : Narrow kernelEntry
  case neg =>
    rw [StubArguments.ofHandoff_of_wideEntry hentry] at h
    cases h
    exact id
  by_cases hinfo : Narrow handoff.bootInfo
  case neg =>
    rw [StubArguments.ofHandoff_of_wideInfo hentry hinfo] at h
    cases h
    exact id
  obtain ⟨arguments, hfits, -⟩ := StubArguments.toHandoff_ofHandoff hentry hinfo
  cases hfits.symm.trans h

theorem not_ofCall_of_mapError {α : Type} {result : Except Stage.Fault α} {fault : Stage.Fault}
    (hresult : ∀ {fault}, result = .error fault → ¬fault.OfCall)
    (h : result.mapError Fault.handover = .error (.handover fault)) : ¬fault.OfCall := by
  cases result with
  | ok a => cases h
  | error cause =>
    cases h
    exact hresult rfl

namespace Setup

variable (setup : Setup)

theorem load_makesNoCall (image : Image) : MakesNoCall (setup.load image) :=
  .mapError _ fun _ _ => nofun

theorem placeImage_makesNoCall (file : Bytes) : MakesNoCall (setup.placeImage file) :=
  (MakesNoCall.note _ _).bind fun _ => setup.load_makesNoCall _

theorem stage_makesNoCall (extent : Extent) : MakesNoCall (setup.stage extent) where
  not_ofCall {machine left fault} hrun := by
    cases setup.stageEnd extent machine with
    | noRoom _ run => cases run.symm.trans hrun
    | unmoved _ _ run _ => cases run.symm.trans hrun
    | unviewed _ _ _ run _ => cases run.symm.trans hrun
    | staged _ _ run _ => cases run.symm.trans hrun

theorem placeModule_makesNoCall (modules : Modules) : MakesNoCall (setup.placeModule modules) where
  not_ofCall {machine left fault} hrun := by
    cases hfirst : modules.first? machine.memory.ram with
    | none => cases (placeModule_of_none hfirst).symm.trans hrun
    | some extent =>
      have hplace : MakesNoCall (setup.stage extent >>= fun image => setup.load image) :=
        (setup.stage_makesNoCall extent).bind fun image => setup.load_makesNoCall image
      exact hplace.not_ofCall ((placeModule_of_some hfirst).symm.trans hrun)

theorem placeKernel_makesNoCall (modules : Modules) : MakesNoCall (setup.placeKernel modules) := by
  unfold placeKernel
  cases setup.kernel with
  | embedded image => exact setup.placeImage_makesNoCall image
  | fromModule => exact setup.placeModule_makesNoCall modules

theorem readyStub_makesNoCall (stub : Bytes) (modules : Modules) (handoff : Handoff) :
    MakesNoCall (setup.readyStub stub modules handoff) := by
  refine MakesNoCall.logError ?_ _
  refine (setup.placeImage_makesNoCall stub).bind fun stubAddress => ?_
  refine (MakesNoCall.ofExcept ?_).bind fun stubEntry => (MakesNoCall.note _ _).bind fun _ => ?_
  · exact fun _ => not_ofCall_of_mapError not_ofCall_of_ofAddress
  refine (setup.placeKernel_makesNoCall modules).bind fun kernelEntry => ?_
  refine (MakesNoCall.note _ _).bind fun _ => (MakesNoCall.ofExcept ?_).bind fun _ => .pure _
  exact fun _ => not_ofCall_of_mapError not_ofCall_of_ofHandoff

end Setup

namespace Step

variable {setup : Setup} {step : Step}

theorem placing_makesNoCall {placing : Action Fault Entry}
    (h : step.placing? setup = some placing) : MakesNoCall placing := by
  cases step with
  | bootImage | bootModule | bootThroughStub => cases h
  | placeImage image =>
    cases h
    exact setup.placeImage_makesNoCall image
  | placeModule modules =>
    cases h
    exact setup.placeModule_makesNoCall modules
  | placeKernel modules =>
    cases h
    exact setup.placeKernel_makesNoCall modules

theorem booting_makesNoCall {booting : Action Fault Call}
    (h : step.booting? setup = some booting) : MakesNoCall booting := by
  have hdirect : ∀ {placing : Action Fault Entry} {handoff : Handoff}, MakesNoCall placing →
      MakesNoCall (placing >>= fun entry => Action.ofExcept (directCall entry handoff)) :=
    fun hplacing => hplacing.bind fun _ => .ofExcept fun _ => not_ofCall_of_directCall
  cases step with
  | placeImage | placeModule | placeKernel => cases h
  | bootImage image handoff =>
    cases h
    exact hdirect (setup.placeImage_makesNoCall image)
  | bootModule modules handoff =>
    cases h
    exact hdirect (setup.placeModule_makesNoCall modules)
  | bootThroughStub stub modules handoff =>
    cases h
    exact setup.readyStub_makesNoCall stub modules handoff

end Step

/-! ## One step -/

/-- Whether a step reports that the stage that was entered came back. -/
def Report.cameBack (report : Report) : Bool :=
  report.outcome = .failed (.handover .cameBack)

/-- A step either asks a recording transfer for the call that it got ready, and reports that the
stage came back, or it reports something else and leaves the transfer as it was. -/
theorem Step.perform_records (setup : Setup) (step : Step) {state : State} {calls : Nat}
    {last : Option Call} (h : state.transfer = .recording calls last) :
    (∃ call, step.call? setup state.memory = some call ∧
        (step.perform setup state).cameBack = true ∧
        (step.perform setup state).state.transfer = .recording (calls + 1) (some call)) ∨
      (step.perform setup state).cameBack = false ∧
        (step.perform setup state).state.transfer = .recording calls last := by
  rcases step.perform_cases setup state with
    ⟨placing, hplacing, hperform⟩ | ⟨booting, hbooting, hperform⟩
  · rw [hperform, Report.transfer_ofPlacement, Report.cameBack, Report.outcome_ofPlacement]
    refine Or.inr ⟨?_, h⟩
    cases hanswer : placing.answer (.ofMemory state.memory) with
    | ok entry => simp
    | error fault =>
      have hother := (Step.placing_makesNoCall hplacing).ne_of_answer hanswer
      simpa using hother
  · rw [hperform]
    cases hanswer : booting.answer (.ofMemory state.memory) with
    | ok call =>
      obtain ⟨houtcome, htransfer⟩ := Report.ofBoot_of_ok state.transfer hanswer
      have hcall : step.call? setup state.memory = some call := by
        simp [Step.call?, hbooting, hanswer, Except.toOption]
      rw [h] at houtcome htransfer
      refine Or.inl ⟨call, hcall, ?_, ?_⟩
      · rw [h, Report.cameBack, houtcome]
        rfl
      · rw [h, htransfer]
        rfl
    | error fault =>
      obtain ⟨houtcome, htransfer⟩ := Report.ofBoot_of_error state.transfer hanswer
      have hother := (Step.booting_makesNoCall hbooting).ne_of_answer hanswer
      refine Or.inr ⟨?_, htransfer.trans h⟩
      rw [Report.cameBack, houtcome]
      simpa using hother

/-! ## Runs -/

/-- The state that a run leaves. -/
def stateAfter (setup : Setup) : State → List Step → State
  | state, [] => state
  | state, step :: rest => stateAfter setup (step.perform setup state).state rest

/-- The call of the last step of a run that reported that the stage came back. -/
def lastReturned (setup : Setup) : State → List Step → Option Call
  | _, [] => none
  | state, step :: rest =>
    let report := step.perform setup state
    (lastReturned setup report.state rest).or
      (if report.cameBack then step.call? setup state.memory else none)

theorem run_append (setup : Setup) :
    ∀ (state : State) (first second : List Step),
      run setup state (first ++ second) =
        run setup state first ++ run setup (stateAfter setup state first) second
  | _, [], _ => rfl
  | state, step :: rest, second => by
    have ih := run_append setup (step.perform setup state).state rest second
    simp only [List.cons_append, run, stateAfter, ih]

theorem stateAfter_append (setup : Setup) :
    ∀ (state : State) (first second : List Step),
      stateAfter setup state (first ++ second) =
        stateAfter setup (stateAfter setup state first) second
  | _, [], _ => rfl
  | state, step :: rest, second =>
    stateAfter_append setup (step.perform setup state).state rest second

/-- A recording transfer counts the steps whose stage came back, and keeps the call of the last. -/
theorem transfer_stateAfter (setup : Setup) :
    ∀ (steps : List Step) (state : State) {calls : Nat} {last : Option Call},
      state.transfer = .recording calls last →
      (stateAfter setup state steps).transfer =
        .recording (calls + (run setup state steps).countP Report.cameBack)
          ((lastReturned setup state steps).or last)
  | [], _, _, _, h => h
  | step :: rest, state, calls, last, h => by
    rcases step.perform_records setup h with ⟨call, hcall, hback, htransfer⟩ | ⟨hback, htransfer⟩
    · have ih := transfer_stateAfter setup rest _ htransfer
      simp only [stateAfter, run, lastReturned, ih, hback, List.countP_cons, if_true, hcall,
        Option.or_assoc, Option.some_or]
      congr 1
      omega
    · have ih := transfer_stateAfter setup rest _ htransfer
      simp only [stateAfter, run, lastReturned, ih, hback, List.countP_cons, Bool.false_eq_true,
        if_false, Option.or_none, Nat.add_zero]

/-- A recording transfer that was fresh at the start of a run has counted, after any number of
steps, those that reported that the stage came back, and holds the call of the last of them.

Of each further step: only one that boots can report that the stage came back. If it does, what is
recorded is the call that it got ready: it goes to the entry of the stage that was placed to be
entered, with the convention for that stage, its address is not zero and fits the convention, and a
stub gets its own arguments, a kernel the handoff of that step. Otherwise the step leaves the
transfer as it was. -/
theorem run_records (setup : Setup) (memory : Memory) (steps : List Step) :
    let start : State := ⟨memory, .fresh⟩
    let reached := stateAfter setup start steps
    reached.transfer = .recording ((run setup start steps).countP Report.cameBack)
        (lastReturned setup start steps) ∧
      ∀ step,
        let report := step.perform setup reached
        run setup start (steps ++ [step]) = run setup start steps ++ [report] ∧
          stateAfter setup start (steps ++ [step]) = report.state ∧
          (step.handoff? = none → report.cameBack = false) ∧
          (report.cameBack = false → report.state.transfer = reached.transfer) ∧
          (report.cameBack = true → ∃ call handoff,
            step.call? setup reached.memory = some call ∧ step.handoff? = some handoff ∧
            lastReturned setup start (steps ++ [step]) = some call ∧
            (∃ placing entry, step.entering? setup = some (placing, call.entry.convention) ∧
              placing.answer (.ofMemory reached.memory) = .ok entry ∧
              call.entry.address = entry.address) ∧
            call.entry.address ≠ 0 ∧
            call.entry.convention.width.reaches call.entry.address = true ∧
            (call.entry.convention = .cdecl32 → ∃ arguments, call.arguments = .stub arguments) ∧
            (call.entry.convention = .sysv64 → call.arguments = .kernel handoff)) := by
  intro start reached
  have htransfer : reached.transfer = _ := transfer_stateAfter setup steps start rfl
  rw [Nat.zero_add, Option.or_none] at htransfer
  refine ⟨htransfer, fun step => ?_⟩
  intro report
  have hlast := transfer_stateAfter setup (steps ++ [step]) start rfl
  rw [stateAfter_append] at hlast
  refine ⟨run_append setup start steps [step], stateAfter_append setup start steps [step], ?_⟩
  rcases step.perform_records setup htransfer with ⟨call, hcall, hback, hleft⟩ | ⟨hback, hleft⟩
  · obtain ⟨handoff, hhandoff, hcdecl, hsysv⟩ := Step.arguments_of_call hcall
    have hheld := Transfer.recording.inj (hlast.symm.trans hleft)
    refine ⟨fun hnone => ?_, fun hother => ?_, fun _ => ?_⟩
    · rw [hhandoff] at hnone
      cases hnone
    · rw [hback] at hother
      cases hother
    · rw [Option.or_none] at hheld
      exact ⟨call, handoff, hcall, hhandoff, hheld.2, Step.entering_of_call hcall,
        call.entry.address_ne, call.entry.reaches, hcdecl, hsysv⟩
  · refine ⟨fun _ => hback, fun _ => hleft.trans htransfer.symm, fun hcame => ?_⟩
    rw [hback] at hcame
    cases hcame

end Chain

end Chainload
