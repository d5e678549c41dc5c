import Chainload.Proofs.Handover

/-!
# Lines about boots that fail

A line of the level `warn` or `error` is an alarm (`Log.alarms`). To place a stage logs none,
however it ends (`Setup.placeImage_quiet`, `Setup.placeModule_quiet`). A boot by way of the stub
logs one if it fails before its call, and every boot logs one if its call fails. A boot that is to
enter the kernel directly and cannot place it logs none (`Step.alarms_of_failed_boot`).
-/

namespace Chainload

/-! ## Alarms -/

namespace Log

/-- The records that report that something went wrong. -/
def alarms (records : List Record) : List Record :=
  records.filter (·.level.passes (some .warn))

@[simp] theorem alarms_append (records records' : List Record) :
    alarms (records ++ records') = alarms records ++ alarms records' :=
  List.filter_append ..

/-- A record that passes stands in the text as its line. -/
theorem text_of_mem {limit : Option Level} {records : List Record} {record : Record}
    (hmem : record ∈ records) (hpasses : record.level.passes limit = true) :
    ∃ before after, text limit records = before ++ record.line ++ after := by
  have hfilter : record ∈ records.filter (·.level.passes limit) :=
    List.mem_filter.mpr ⟨hmem, hpasses⟩
  obtain ⟨front, back, hsplit⟩ := List.append_of_mem hfilter
  refine ⟨String.join (front.map Record.line), String.join (back.map Record.line), ?_⟩
  rw [text, hsplit, List.map_append, List.map_cons, String.join_append, String.join_cons,
    String.append_assoc]

/-- Where no more than alarms pass, the text is that of the alarms. -/
theorem text_alarms {limit : Option Level} (records : List Record)
    (hlimit : Level.info.passes limit = false) :
    text limit (alarms records) = text limit records := by
  -- A level that passes the limit is graver than `info`, so it is that of an alarm.
  have hpasses : ∀ level : Level, (level.passes limit && level.passes (some .warn)) =
      level.passes limit := by
    rcases limit with _ | limit
    · exact fun _ => rfl
    · cases limit <;> intro level <;> cases level <;> first | rfl | cases hlimit
  rw [text, text, alarms, List.filter_filter]
  simp only [hpasses]

end Log

namespace Action

variable {ε ε' α β : Type}

/-- The lines that were logged by the end of an action. -/
def recordsAfter (action : Action ε α) (machine : Machine) : List Log.Record :=
  match action machine with
  | .ok _ left => left.records
  | .error _ left => left.records

theorem recordsAfter_of_ok {action : Action ε α} {machine left : Machine} {a : α}
    (h : action machine = .ok a left) : action.recordsAfter machine = left.records := by
  simp only [recordsAfter, h]

theorem recordsAfter_of_error {action : Action ε α} {machine left : Machine} {e : ε}
    (h : action machine = .error e left) : action.recordsAfter machine = left.records := by
  simp only [recordsAfter, h]

/-- The action logs no alarm, whether it returns or fails. -/
structure Quiet (action : Action ε α) : Prop where
  alarms : ∀ machine, Log.alarms (action.recordsAfter machine) = Log.alarms machine.records

namespace Quiet

variable {action : Action ε α}

theorem pure (a : α) : Quiet (Pure.pure a : Action ε α) :=
  ⟨fun _ => rfl⟩

theorem throw (e : ε) : Quiet (MonadExcept.throw e : Action ε α) :=
  ⟨fun _ => rfl⟩

theorem ram : Quiet (Action.ram : Action ε Ram) :=
  ⟨fun _ => rfl⟩

theorem ofExcept (result : Except ε α) : Quiet (Action.ofExcept result) := by
  cases result with
  | ok a => exact .pure a
  | error e => exact .throw e

theorem bind {f : α → Action ε β} (h : Quiet action) (hf : ∀ a, Quiet (f a)) :
    Quiet (action >>= f) where
  alarms machine := by
    have hfirst := h.alarms machine
    cases hrun : action machine with
    | ok a left =>
      rw [recordsAfter_of_ok hrun] at hfirst
      rw [recordsAfter, bind_of_ok hrun, ← recordsAfter, (hf a).alarms, hfirst]
    | error e left =>
      rw [recordsAfter_of_error hrun] at hfirst
      rw [recordsAfter_of_error (bind_of_error hrun), hfirst]

theorem mapError (f : ε → ε') (h : Quiet action) : Quiet (action.mapError f) where
  alarms machine := by
    rw [← h.alarms machine, recordsAfter, recordsAfter, mapError_apply]
    cases action machine <;> rfl

theorem log {level : Log.Level} (hlevel : level.passes (some .warn) = false)
    (target message : String) : Quiet (Action.log level target message : Action ε Unit) where
  alarms machine := by
    show Log.alarms (machine.records ++ [⟨level, target, message⟩]) = _
    rw [Log.alarms_append]
    simp [Log.alarms, hlevel]

theorem request (access : Request) : Quiet (Action.request access) where
  alarms machine := by
    rw [recordsAfter, request_apply]
    cases machine.memory.perform access <;> rfl

theorem ite {condition : Prop} [Decidable condition] {action' : Action ε α}
    (h : condition → Quiet action) (h' : ¬condition → Quiet action') :
    Quiet (if condition then action else action') := by
  split
  case isTrue hcondition => exact h hcondition
  case isFalse hcondition => exact h' hcondition

end Quiet

end Action

/-! ## Loads -/

namespace Elf.Loader

open Chainload.Action

theorem note_quiet {ε : Type} {level : Log.Level} (hlevel : level.passes (some .warn) = false)
    (message : String) : Quiet (note level message : Action ε Unit) :=
  .log hlevel logTarget message

theorem request_quiet (access : Request) : Quiet (request access) :=
  .mapError _ (.request access)

theorem copyFile_quiet (image : Image) (target : UInt64) (ph : ProgramHeader) :
    Quiet (copyFile image target ph) :=
  .ite (fun _ => .bind .ram fun _ => .bind (.ofExcept _) fun _ => request_quiet _)
    fun _ => .pure ()

theorem zeroRest_quiet (loader : Loader) (index : Nat) (target : UInt64) (ph : ProgramHeader) :
    Quiet (loader.zeroRest index target ph) :=
  .ite (fun _ => .bind (note_quiet rfl _) fun _ => request_quiet _) fun _ => .pure ()

theorem placeEntry_quiet (loader : Loader) (image : Image) (index : Nat) (ph : ProgramHeader) :
    Quiet (loader.placeEntry image index ph) :=
  .ite (fun _ => .bind (.ofExcept _) fun target => .bind (note_quiet rfl _) fun _ =>
      .bind (copyFile_quiet image target ph) fun _ => loader.zeroRest_quiet index target ph)
    fun _ => note_quiet rfl _

theorem placeEntries_quiet (loader : Loader) (image : Image) (table : Table) :
    ∀ left index : Nat, Quiet (loader.placeEntries image table left index)
  | 0, _ => .pure ()
  | left + 1, index =>
    .bind .ram fun _ => .bind (.ofExcept _) fun ph =>
      .bind (loader.placeEntry_quiet image index ph) fun _ =>
        placeEntries_quiet loader image table left (index + 1)

/-- A load logs its progress, never that it failed. -/
theorem load_quiet (loader : Loader) (image : Image) : Quiet (loader.load image) := by
  refine .bind .ram fun _ => .bind (.ofExcept _) fun header => ?_
  cases Entry.ofAddress? header.entry with
  | none => exact .throw _
  | some entry =>
    have hplace : Quiet (do
        loader.placeEntries image header.table header.entryCount.toNat 0
        return entry) :=
      .bind (loader.placeEntries_quiet image header.table _ 0) fun _ => .pure entry
    exact .bind (note_quiet rfl _) fun _ =>
      .ite (fun _ => .bind .ram fun _ => .bind (.ofExcept _) fun _ => hplace) fun _ => hplace

end Elf.Loader

namespace Chain

open Chainload.Action Elf Multiboot Stage

/-! ## What comes before a call -/

theorem note_quiet {ε : Type} {level : Log.Level} (hlevel : level.passes (some .warn) = false)
    (message : String) : Quiet (note level message : Action ε Unit) :=
  .log hlevel logTarget message

theorem request_quiet (access : Request) : Quiet (request access) :=
  .mapError _ (.request access)

namespace Setup

variable (setup : Setup)

theorem load_quiet (image : Image) : Quiet (setup.load image) :=
  .mapError _ (setup.loader.load_quiet image)

theorem placeImage_quiet (image : Bytes) : Quiet (setup.placeImage image) :=
  .bind (note_quiet rfl _) fun _ => setup.load_quiet _

theorem stage_quiet (extent : Extent) : Quiet (setup.stage extent) := by
  have hmove : Quiet (do
      note .info (setup.stagingMessage extent)
      request (.move setup.scratch.start extent.start extent.length)
      request (.view setup.scratch.start extent.length)
      return Image.view setup.scratch.start extent.length) :=
    .bind (note_quiet rfl _) fun _ => .bind (request_quiet _) fun _ =>
      .bind (request_quiet _) fun _ => .pure _
  exact .ite (fun _ => .bind (.throw _) fun _ => hmove) fun _ => hmove

theorem placeModule_quiet (modules : Modules) : Quiet (setup.placeModule modules) := by
  refine .bind .ram fun ram => ?_
  cases modules.first? ram with
  | none => exact .throw _
  | some extent => exact .bind (setup.stage_quiet extent) fun image => setup.load_quiet image

theorem placeKernel_quiet (modules : Modules) : Quiet (setup.placeKernel modules) := by
  unfold placeKernel
  cases setup.kernel with
  | embedded image => exact setup.placeImage_quiet image
  | fromModule => exact setup.placeModule_quiet modules

theorem readyBoth_quiet (stub : Bytes) (modules : Modules) (handoff : Handoff) :
    Quiet (setup.readyBoth stub modules handoff) :=
  .bind (setup.placeImage_quiet stub) fun _ => .bind (.ofExcept _) fun _ =>
    .bind (note_quiet rfl _) fun _ => .bind (setup.placeKernel_quiet modules) fun _ =>
      .bind (note_quiet rfl _) fun _ => .bind (.ofExcept _) fun _ => .pure _

end Setup

/-! ## Direct calls -/

/-- Nothing stands in the way of a direct call, since no kernel starts at zero. -/
theorem exists_directCall (entry : Entry) (handoff : Handoff) :
    ∃ call, directCall entry handoff = .ok call := by
  obtain ⟨point, hpoint⟩ := EntryPoint.ofAddress_sysv64 entry.address_ne
  have hnative : EntryPoint.ofAddress entry.address Convention.native = .ok point := hpoint
  exact ⟨⟨point, .kernel handoff⟩, by rw [directCall, hnative]⟩

theorem direct_quiet {placing : Action Fault Entry} (h : Quiet placing) (handoff : Handoff) :
    Quiet (placing >>= fun entry => Action.ofExcept (directCall entry handoff)) :=
  h.bind fun entry => .ofExcept (directCall entry handoff)

/-- A direct call is not ready if and only if the kernel is not placed. -/
theorem answer_direct_eq_error_iff {placing : Action Fault Entry} {machine : Machine}
    {fault : Fault} (handoff : Handoff) :
    (placing >>= fun entry => Action.ofExcept (directCall entry handoff)).answer machine =
        .error fault ↔ placing.answer machine = .error fault := by
  have hcall : ∀ entry between, placing machine = .ok entry between →
      (Action.ofExcept (directCall entry handoff)).answer between = directCall entry handoff := by
    intro entry between _
    cases directCall entry handoff <;> rfl
  rw [answer_bind hcall]
  cases placing.answer machine with
  | error fault' =>
    show (Except.error fault' : Except Fault Call) = .error fault ↔ _
    rw [Except.error.injEq, Except.error.injEq]
  | ok entry =>
    obtain ⟨call, hdirect⟩ := exists_directCall entry handoff
    refine iff_of_false (fun h => ?_) (nomatch ·)
    cases hdirect.symm.trans h

namespace Step

variable {setup : Setup} {state : State} {step alone : Step} {handoff : Handoff} {fault : Fault}

/-- The step that only places the kernel that a boot enters directly. -/
def alone? : Step → Option Step
  | .bootImage image _ => some (.placeImage image)
  | .bootModule modules _ => some (.placeModule modules)
  | .bootThroughStub .. | .placeImage .. | .placeModule .. | .placeKernel .. => none

/-- A direct boot places the kernel, without an alarm, and makes up the call. -/
theorem booting_of_alone (h : step.alone? = some alone) (setup : Setup) :
    ∃ placing handoff, Quiet placing ∧
      (∀ state : State, alone.perform setup state =
        .ofPlacement state.transfer (placing (.ofMemory state.memory))) ∧
      step.booting? setup =
        some (placing >>= fun entry => Action.ofExcept (directCall entry handoff)) := by
  cases step with
  | bootThroughStub | placeImage | placeModule | placeKernel => cases h
  | bootImage image handoff =>
    cases h
    exact ⟨_, handoff, setup.placeImage_quiet image, fun _ => rfl, rfl⟩
  | bootModule modules handoff =>
    cases h
    exact ⟨_, handoff, setup.placeModule_quiet modules, fun _ => rfl, rfl⟩

/-- The boots that are not direct go by way of the stub. -/
theorem booting_of_not_alone (hboots : step.handoff? = some handoff) (h : step.alone? = none)
    (setup : Setup) :
    ∃ both, Quiet both ∧ step.booting? setup = some (both.logError fun fault =>
      ⟨.error, logTarget, s!"Two-stage chain aborted: {fault.message}"⟩) := by
  cases step with
  | placeImage | placeModule | placeKernel => cases hboots
  | bootImage | bootModule => cases h
  | bootThroughStub stub modules handoff =>
    exact ⟨_, setup.readyBoth_quiet stub modules handoff, rfl⟩

end Step

/-! ## Reports -/

namespace Report

variable {booting : Action Fault Call} {transfer : Transfer} {memory : Memory} {call : Call}
  {fault : Fault}

theorem alarms_perform (transfer : Transfer) (call : Call) :
    Log.alarms (transfer.perform call).records = [] := by
  cases transfer with
  | recording calls last => rfl
  | jumping =>
    simp only [Transfer.perform]
    split <;> rfl

/-- If getting ready fails quietly, so does the boot. -/
theorem alarms_ofBoot_of_quiet (hquiet : Quiet booting)
    (h : booting.answer (.ofMemory memory) = .error fault) :
    Log.alarms (ofBoot transfer (booting (.ofMemory memory))).records = [] := by
  obtain ⟨left, hrun⟩ := error_of_answer h
  have halarms := hquiet.alarms (.ofMemory memory)
  rw [recordsAfter_of_error hrun] at halarms
  rw [hrun]
  exact halarms

/-- A line about the fault is the only alarm of a boot that is quiet apart from it. -/
theorem alarms_ofBoot_logError {line : Fault → Log.Record} (hquiet : Quiet booting)
    (hline : ∀ fault, (line fault).level = .error)
    (h : (booting.logError line).answer (.ofMemory memory) = .error fault) :
    Log.alarms (ofBoot transfer (booting.logError line (.ofMemory memory))).records =
      [line fault] := by
  rw [answer_logError] at h
  obtain ⟨left, hrun⟩ := error_of_answer h
  have halarms := hquiet.alarms (.ofMemory memory)
  rw [recordsAfter_of_error hrun] at halarms
  rw [logError_apply, hrun]
  show Log.alarms (left.records ++ [line fault]) = _
  rw [Log.alarms_append, halarms]
  simp [Log.alarms, Machine.ofMemory, hline, Log.Level.passes, Log.Level.rank]

/-- A call that fails logs one alarm. -/
theorem alarms_ofCall {machine : Machine} (hmachine : Log.alarms machine.records = [])
    (hfailed : (ofCall transfer call machine).outcome = .failed fault) :
    ∃ cause, fault = .handover cause ∧ Log.alarms (ofCall transfer call machine).records =
      [⟨.error, logTarget, s!"Control transfer to {call.entry.text} failed: {cause.message}"⟩] := by
  have hrecords : (ofCall transfer call machine).records = machine.records ++
      ((transfer.perform call).records ++
        departureLines call.entry (transfer.perform call).departure) := rfl
  have houtcome : Outcome.ofDeparture (transfer.perform call).departure = .failed fault := hfailed
  cases hdeparture : (transfer.perform call).departure with
  | jumped arrival =>
    rw [hdeparture] at houtcome
    cases houtcome
  | failed cause =>
    rw [hdeparture] at houtcome hrecords
    cases houtcome
    refine ⟨cause, rfl, ?_⟩
    rw [hrecords, Log.alarms_append, Log.alarms_append, hmachine, alarms_perform]
    rfl

end Report

namespace Step

variable {setup : Setup} {state : State} {step : Step} {handoff : Handoff} {fault : Fault}

/-- A boot that gets a call ready has logged no alarm until then. -/
theorem alarms_of_ready (hboots : step.handoff? = some handoff) {booting : Action Fault Call}
    (hbooting : step.booting? setup = some booting) {machine left : Machine} {call : Call}
    (hrun : booting machine = .ok call left) :
    Log.alarms left.records = Log.alarms machine.records := by
  cases halone : step.alone? with
  | some alone =>
    obtain ⟨placing, handoff', hquiet, -, hdirect⟩ := booting_of_alone halone setup
    cases hbooting.symm.trans hdirect
    have hready := (direct_quiet hquiet handoff').alarms machine
    rwa [recordsAfter_of_ok hrun] at hready
  | none =>
    obtain ⟨both, hquiet, hstub⟩ := booting_of_not_alone hboots halone setup
    cases hbooting.symm.trans hstub
    have hready := hquiet.alarms machine
    rwa [recordsAfter_of_ok (logError_eq_ok_iff.mp hrun)] at hready

/-- A boot that fails with its call logs an alarm about the call. -/
theorem alarms_of_call (hboots : step.handoff? = some handoff)
    (hfailed : (step.perform setup state).outcome = .failed fault) {call : Call}
    (hcall : step.call? setup state.memory = some call) :
    ∃ cause, fault = .handover cause ∧ Log.alarms (step.perform setup state).records =
      [⟨.error, logTarget, s!"Control transfer to {call.entry.text} failed: {cause.message}"⟩] := by
  obtain ⟨booting, hbooting, hperform⟩ := perform_of_boots hboots setup
  rw [call?, hbooting] at hcall
  obtain ⟨left, hrun⟩ := ok_of_answer (Except.toOption_eq_some_iff.mp hcall)
  rw [hperform, hrun] at hfailed ⊢
  exact Report.alarms_ofCall (alarms_of_ready hboots hbooting hrun) hfailed

/-- A boot that fails before its call has a report without the call. -/
theorem perform_of_no_call (hboots : step.handoff? = some handoff)
    (hfailed : (step.perform setup state).outcome = .failed fault)
    (hcall : step.call? setup state.memory = none) :
    ∃ booting, step.booting? setup = some booting ∧
      booting.answer (.ofMemory state.memory) = .error fault ∧
      step.perform setup state = .ofBoot state.transfer (booting (.ofMemory state.memory)) := by
  obtain ⟨booting, hbooting, hperform⟩ := perform_of_boots hboots setup
  refine ⟨booting, hbooting, ?_, hperform state⟩
  cases hanswer : booting.answer (.ofMemory state.memory) with
  | ok call =>
    rw [call?, hbooting] at hcall
    simp [hanswer, Except.toOption] at hcall
  | error fault' =>
    rw [hperform, (Report.ofBoot_of_error state.transfer hanswer).1] at hfailed
    cases hfailed
    rfl

/-- The boot is direct and the kernel is not placed. -/
def FailsToPlace (setup : Setup) (state : State) (step : Step) (fault : Fault) : Prop :=
  ∃ alone, step.alone? = some alone ∧ (alone.perform setup state).outcome = .failed fault

/-- Then there is no call. -/
theorem FailsToPlace.call?_eq_none (h : step.FailsToPlace setup state fault) :
    step.call? setup state.memory = none := by
  obtain ⟨alone, halone, houtcome⟩ := h
  obtain ⟨placing, handoff, -, hperform, hbooting⟩ := booting_of_alone halone setup
  rw [hperform, Report.failed_iff] at houtcome
  have hanswer := (answer_direct_eq_error_iff handoff).mpr houtcome
  rw [call?, hbooting]
  simp [hanswer, Except.toOption]

/-- A boot that fails without a call logs an alarm if it goes by way of the stub, and otherwise
none. -/
theorem alarms_of_no_call (hboots : step.handoff? = some handoff)
    (hfailed : (step.perform setup state).outcome = .failed fault)
    (hcall : step.call? setup state.memory = none) :
    (step.FailsToPlace setup state fault ∧
        Log.alarms (step.perform setup state).records = []) ∨
      step.alone? = none ∧ Log.alarms (step.perform setup state).records =
        [⟨.error, logTarget, s!"Two-stage chain aborted: {fault.message}"⟩] := by
  obtain ⟨booting, hbooting, hanswer, hreport⟩ := perform_of_no_call hboots hfailed hcall
  rw [hreport]
  cases halone : step.alone? with
  | some alone =>
    obtain ⟨placing, handoff', hquiet, hperform, hdirect⟩ := booting_of_alone halone setup
    cases hbooting.symm.trans hdirect
    have hplaced := (answer_direct_eq_error_iff _).mp hanswer
    refine Or.inl ⟨⟨alone, halone, ?_⟩,
      Report.alarms_ofBoot_of_quiet (direct_quiet hquiet handoff') hanswer⟩
    rw [hperform]
    exact Report.failed_iff.mpr hplaced
  | none =>
    obtain ⟨both, hquiet, hstub⟩ := booting_of_not_alone hboots halone setup
    cases hbooting.symm.trans hstub
    exact Or.inr ⟨rfl, Report.alarms_ofBoot_logError hquiet (fun _ => rfl) hanswer⟩

/-- A boot that fails says so in one line, at every maximum level that lets errors pass, unless it
is direct and fails to place the kernel. Then no line says so. -/
theorem alarms_of_failed_boot (hboots : step.handoff? = some handoff)
    (hfailed : (step.perform setup state).outcome = .failed fault) :
    (step.FailsToPlace setup state fault →
      Log.alarms (step.perform setup state).records = [] ∧
        ∀ limit, Log.Level.info.passes limit = false →
          Log.text limit (step.perform setup state).records = "") ∧
    (¬step.FailsToPlace setup state fault →
      ∃ message, Log.alarms (step.perform setup state).records =
          [⟨.error, logTarget, message⟩] ∧
        (step.call? setup state.memory = none →
          message = s!"Two-stage chain aborted: {fault.message}") ∧
        (∀ call, step.call? setup state.memory = some call →
          ∃ cause, fault = .handover cause ∧
            message = s!"Control transfer to {call.entry.text} failed: {cause.message}") ∧
        ∀ limit, ∃ before after, Log.text (some limit) (step.perform setup state).records =
          before ++ (Log.Record.mk .error logTarget message).line ++ after) := by
  have hshown : ∀ {message}, Log.alarms (step.perform setup state).records =
      [⟨.error, logTarget, message⟩] → ∀ limit, ∃ before after,
        Log.text (some limit) (step.perform setup state).records =
          before ++ (Log.Record.mk .error logTarget message).line ++ after := by
    intro message halarms limit
    have hmem : Log.Record.mk .error logTarget message ∈
        Log.alarms (step.perform setup state).records := by
      rw [halarms]
      exact List.mem_singleton_self _
    exact Log.text_of_mem (List.mem_filter.mp hmem).1 (by cases limit <;> rfl)
  cases hcall : step.call? setup state.memory with
  | some call =>
    obtain ⟨cause, hfault, halarms⟩ := alarms_of_call hboots hfailed hcall
    refine ⟨fun hplace => ?_, fun _ => ⟨_, halarms, nofun, ?_, hshown halarms⟩⟩
    · cases hplace.call?_eq_none.symm.trans hcall
    · rintro _ ⟨⟩
      exact ⟨cause, hfault, rfl⟩
  | none =>
    rcases alarms_of_no_call hboots hfailed hcall with ⟨hplace, halarms⟩ | ⟨halone, halarms⟩
    · refine ⟨fun _ => ⟨halarms, fun limit hlimit => ?_⟩, (absurd hplace ·)⟩
      rw [← Log.text_alarms _ hlimit, halarms]
      rfl
    · refine ⟨fun ⟨alone, hdirect, _⟩ => ?_, fun _ =>
        ⟨_, halarms, fun _ => rfl, nofun, hshown halarms⟩⟩
      cases halone.symm.trans hdirect

/-- Without a module a chain by way of the stub says that it was aborted. A direct one fails with
the same fault and says nothing. -/
theorem alarms_of_failed_boot_noModule :
    ((bootModule (.listed []) ⟨0, 0⟩).perform compact ⟨compactMemory, .fresh⟩).outcome =
        .failed .noModule ∧
      ((bootThroughStub (fileFor 0x1100) (.listed []) ⟨0, 0⟩).perform compact
        ⟨compactMemory, .fresh⟩).outcome = .failed .noModule ∧
      Log.text (some .error)
        ((bootModule (.listed []) ⟨0, 0⟩).perform compact ⟨compactMemory, .fresh⟩).records = "" ∧
      ∃ before after, Log.text (some .error)
          ((bootThroughStub (fileFor 0x1100) (.listed []) ⟨0, 0⟩).perform compact
            ⟨compactMemory, .fresh⟩).records =
        before ++ ("[ERROR] boot_chain::chainer: Two-stage chain aborted: " ++
          "The bootloader provided no module to load the kernel from\n") ++ after := by
  have hdirect : ((bootModule (.listed []) ⟨0, 0⟩).perform compact
      ⟨compactMemory, .fresh⟩).outcome = .failed .noModule := rfl
  have hstub : ((bootThroughStub (fileFor 0x1100) (.listed []) ⟨0, 0⟩).perform compact
      ⟨compactMemory, .fresh⟩).outcome = .failed .noModule := by decide +kernel
  refine ⟨hdirect, hstub, ?_, ?_⟩
  · exact ((alarms_of_failed_boot rfl hdirect).1 ⟨.placeModule (.listed []), rfl, rfl⟩).2 _ rfl
  · have hplace : ¬(bootThroughStub (fileFor 0x1100) (.listed []) ⟨0, 0⟩).FailsToPlace compact
        ⟨compactMemory, .fresh⟩ .noModule := fun ⟨_, hdirect, _⟩ => nomatch hdirect
    obtain ⟨message, -, hmessage, -, hshown⟩ := (alarms_of_failed_boot rfl hstub).2 hplace
    obtain rfl := hmessage (by decide +kernel)
    exact hshown .error

/-- A step that is asked to boot a module where there is none fails, and its log is empty at every
maximum level. -/
theorem bootModule_silent :
    ((bootModule (.listed []) ⟨0, 0⟩).perform compact ⟨compactMemory, .fresh⟩).outcome =
        .failed .noModule ∧
      ∀ limit, Log.text limit
        ((bootModule (.listed []) ⟨0, 0⟩).perform compact ⟨compactMemory, .fresh⟩).records = "" :=
  ⟨rfl, fun _ => rfl⟩

end Step

end Chain

end Chainload
