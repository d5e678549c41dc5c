import Chainload.Proofs.Areas
import Chainload.Proofs.SegmentWrites
import Chainload.Proofs.Staging

/-!
# The same run by plain pointers

A window checks every range. Plain pointers check hardly anything: they grant what a window refuses,
they pass over an empty write wherever it is meant to go, and they refuse the address zero, where a
window may well lie. So RAM that is reached by plain pointers (`Memory.plain`) may end up different.

It does not where the window lies above address zero and grants everything that it is asked for.
What it grants, plain pointers grant with the same effect, and the RAM covers it (`Memory.Granted`).
`Action.Portable` carries this through whole runs: unless the window refuses an access, the run by
plain pointers goes the same way (`Action.SamePlain`), whether it returns or fails. It passes
through binds.

A load runs alike if the bytes of its image do (`Loader.load_portable`): those of a file of its own
always, those of a view as long as no segment is placed on it. For a module that means that what is
stored shares no address with the copy it is read from. The copy was asked for as a whole before, so
what is read of it lies in the RAM as well.
-/

namespace Chainload

open Elf

/-! ## What a window grants -/

/-- The spans of addresses that an access reads or writes. -/
def Request.spans : Request → List Span
  | .store target bytes => [⟨target.toNat, bytes.length⟩]
  | .clear target len => [⟨target.toNat, len.toNat⟩]
  | .move target source len => [⟨target.toNat, len.toNat⟩, ⟨source.toNat, len.toNat⟩]
  | .view address len => [⟨address.toNat, len.toNat⟩]

namespace Memory

/-- The same RAM, reached by plain pointers. -/
def plain (memory : Memory) : Memory :=
  { memory with mapping := .identity }

/-- RAM behind a window that does not reach down to address zero. -/
structure AboveNull (memory : Memory) : Prop where
  isWindow : memory.mapping = .window
  base_ne : memory.ram.base ≠ 0

/-- What a window grants: an access whose spans it covers, which leaves the second memory. -/
inductive Granted (memory : Memory) : Request → Memory → Prop
  | store {target bytes} (covered : memory.ram.covers target.toNat bytes.length = true) :
    Granted memory (.store target bytes) (memory.write target bytes)
  | clear {target len} (covered : memory.ram.covers target.toNat len.toNat = true) :
    Granted memory (.clear target len) (memory.write target (Bytes.zeros len.toNat))
  | move {target source len} (covered : memory.ram.covers target.toNat len.toNat = true)
      (sourceCovered : memory.ram.covers source.toNat len.toNat = true) :
    Granted memory (.move target source len)
      (memory.write target (memory.ram.read source.toNat len.toNat))
  | view {address len} (covered : memory.ram.covers address.toNat len.toNat = true) :
    Granted memory (.view address len) memory

variable {memory after : Memory} {access : Request} {address : UInt64} {len : Nat}

theorem granted_of_perform (hwindow : memory.mapping = .window)
    (h : memory.perform access = .ok after) : Granted memory access after := by
  cases access with
  | store target bytes =>
    rw [perform_store hwindow] at h
    split at h
    case isTrue hcovers =>
      cases h
      exact .store hcovers
    case isFalse => cases h
  | clear target len =>
    rw [perform_clear hwindow] at h
    split at h
    case isTrue hcovers =>
      cases h
      exact .clear hcovers
    case isFalse => cases h
  | move target source len =>
    obtain ⟨htarget, hsource⟩ := covers_of_move hwindow h
    rw [perform_move_of_covers hwindow htarget hsource] at h
    cases h
    exact .move htarget hsource
  | view address len =>
    rw [perform_view hwindow] at h
    split at h
    case isTrue hcovers =>
      cases h
      exact .view hcovers
    case isFalse => cases h

namespace AboveNull

theorem of_sameShape (h : memory.AboveNull) (hshape : SameShape memory after) :
    after.AboveNull where
  isWindow := hshape.window h.isWindow
  base_ne := by rw [hshape.base]; exact h.base_ne

/-- No range that the window covers starts at address zero. -/
theorem refusal?_plain (h : memory.AboveNull)
    (hcovers : memory.ram.covers address.toNat len = true) :
    memory.plain.refusal? address len = none := by
  have hne : address ≠ 0 := by
    rintro rfl
    have hlow := (Ram.covers_iff.mp hcovers).1
    exact h.base_ne (UInt64.toNat_inj.mp (Nat.le_zero.mp hlow))
  simp [refusal?, admits, plain, hne]

end AboveNull

/-- To pass over an empty write is to make it. -/
theorem passOver_or_write {bytes : Bytes} (target : UInt64) (h : bytes.length = len) :
    (if memory.plain.passesOver len then .ok memory.plain
      else .ok (memory.plain.write target bytes) : Except OutOfRange Memory) =
        .ok (memory.write target bytes).plain := by
  subst h
  cases bytes with
  | nil => simp [passesOver, plain]
  | cons b rest => simp [passesOver, plain, write]

namespace Granted

theorem covers (h : Granted memory access after) :
    ∀ span ∈ access.spans, memory.ram.covers span.start span.len = true := by
  cases h with
  | store hcovers => simpa [Request.spans] using hcovers
  | clear hcovers => simpa [Request.spans] using hcovers
  | move htarget hsource => simpa [Request.spans] using And.intro htarget hsource
  | view hcovers => simpa [Request.spans] using hcovers

theorem sameShape (h : Granted memory access after) : SameShape memory after := by
  cases h with
  | store hcovers => exact (Overwritten.write hcovers).toSameShape
  | clear hcovers =>
    exact (Overwritten.write (by rwa [Bytes.length_zeros])).toSameShape
  | move htarget hsource =>
    exact (Overwritten.write (by rwa [Ram.length_read])).toSameShape
  | view hcovers => exact .refl memory

/-- What a window above address zero grants, plain pointers grant with the same effect. -/
theorem perform_plain (h : Granted memory access after) (habove : memory.AboveNull) :
    memory.plain.perform access = .ok after.plain := by
  cases h with
  | store hcovers =>
    simp only [perform, Memory.store, habove.refusal?_plain hcovers]
    exact passOver_or_write _ rfl
  | clear hcovers =>
    simp only [perform, Memory.clear, habove.refusal?_plain hcovers]
    exact passOver_or_write _ (Bytes.length_zeros _)
  | move htarget hsource =>
    simp only [perform, Memory.move, habove.refusal?_plain htarget, habove.refusal?_plain hsource]
    exact passOver_or_write _ (Ram.length_read _ _ _)
  | view hcovers =>
    simp only [perform, Memory.view, habove.refusal?_plain hcovers]

end Granted

/-- A window that reaches down to address zero grants what a null pointer does not. -/
example : Memory.perform ⟨.window, ⟨0, [1]⟩⟩ (.clear 0 1) = .ok ⟨.window, ⟨0, [0]⟩⟩ ∧
    Memory.perform ⟨.identity, ⟨0, [1]⟩⟩ (.clear 0 1) = .error ⟨0, 1⟩ := by
  decide

end Memory

/-! ## Runs that go the same way -/

/-- The same machine with its RAM reached by plain pointers. -/
def Machine.plain (machine : Machine) : Machine :=
  { machine with memory := machine.memory.plain }

/-- What the access reads and writes lies in the RAM. If it is a store or a clear, what it writes
lies in the set of addresses too. -/
structure Request.StaysIn (ram : Ram) (S : Nat → Prop) (access : Request) : Prop where
  covers : ∀ span ∈ access.spans, ram.covers span.start span.len = true
  writes : ∀ write, Write.ofRequest? access = some write → ∀ a, write.span.Holds a → S a

namespace Action

open Memory

variable {ε ε' α β : Type} {S T : Nat → Prop} {machine left : Machine}

/-- A run led from one machine to another and asked for nothing outside the RAM. -/
structure Reaches (S : Nat → Prop) (machine left : Machine) : Prop
    extends SameShape machine.memory left.memory where
  asked : ∃ accesses, left.requests = machine.requests ++ accesses ∧
    ∀ access ∈ accesses, access.StaysIn machine.memory.ram S

namespace Reaches

theorem of_quiet (hmemory : left.memory = machine.memory)
    (hrequests : left.requests = machine.requests) : Reaches S machine left where
  toSameShape := hmemory ▸ .refl _
  asked := ⟨[], by rw [hrequests, List.append_nil], nofun⟩

theorem refl (S : Nat → Prop) (machine : Machine) : Reaches S machine machine :=
  of_quiet rfl rfl

theorem trans {between : Machine} (h : Reaches S machine between) (h' : Reaches S between left) :
    Reaches S machine left where
  toSameShape := h.toSameShape.trans h'.toSameShape
  asked := by
    obtain ⟨first, hbetween, hfirst⟩ := h.asked
    obtain ⟨second, hleft, hsecond⟩ := h'.asked
    refine ⟨first ++ second, by rw [hleft, hbetween, List.append_assoc], fun access hmem => ?_⟩
    rcases List.mem_append.mp hmem with hmem | hmem
    · exact hfirst access hmem
    · obtain ⟨hcovers, hwrites⟩ := hsecond access hmem
      exact ⟨fun span hspan => (h.covers _ _).symm.trans (hcovers span hspan), hwrites⟩

theorem mono (h : Reaches S machine left) (hST : ∀ a, S a → T a) : Reaches T machine left where
  toSameShape := h.toSameShape
  asked := by
    obtain ⟨accesses, hleft, hstays⟩ := h.asked
    refine ⟨accesses, hleft, fun access hmem => ?_⟩
    obtain ⟨hcovers, hwrites⟩ := hstays access hmem
    exact ⟨hcovers, fun write hwrite a ha => hST a (hwrites write hwrite a ha)⟩

end Reaches

/-- The run by plain pointers answers what the one behind the window does and leaves the same
machine: the same bytes, accesses and lines of the log. All that it asks for lies in the RAM, and
what it stores in the set of addresses. -/
inductive SamePlain (S : Nat → Prop) (action : Action ε α) (machine : Machine) : Prop
  | returns {a left} (window : action machine = .ok a left)
      (plain : action machine.plain = .ok a left.plain) (reaches : Reaches S machine left)
  | fails {e left} (window : action machine = .error e left)
      (plain : action machine.plain = .error e left.plain) (reaches : Reaches S machine left)

theorem SamePlain.mono {action : Action ε α} (h : SamePlain S action machine)
    (hST : ∀ a, S a → T a) : SamePlain T action machine := by
  cases h with
  | returns hrun hrun' hreaches => exact .returns hrun hrun' (hreaches.mono hST)
  | fails hrun hrun' hreaches => exact .fails hrun hrun' (hreaches.mono hST)

/-- Unless the window refuses an access, the run by plain pointers goes the same way. -/
def Portable (refused : OutOfRange → ε) (S : Nat → Prop) (action : Action ε α)
    (machine : Machine) : Prop :=
  (∃ range left, action machine = .error (refused range) left) ∨ SamePlain S action machine

namespace Portable

variable {refused : OutOfRange → ε} {action action' : Action ε α} {f : α → Action ε β}

theorem samePlain (h : Portable refused S action machine)
    (hgranted : ∀ range, action.answer machine ≠ .error (refused range)) :
    SamePlain S action machine := by
  rcases h with ⟨range, left, hrefused⟩ | hsame
  · exact absurd (answer_of_error hrefused) (hgranted range)
  · exact hsame

theorem returns {a : α} (hwindow : action machine = .ok a left)
    (hplain : action machine.plain = .ok a left.plain) (hreaches : Reaches S machine left) :
    Portable refused S action machine :=
  .inr (.returns hwindow hplain hreaches)

theorem fails {e : ε} (hwindow : action machine = .error e left)
    (hplain : action machine.plain = .error e left.plain) (hreaches : Reaches S machine left) :
    Portable refused S action machine :=
  .inr (.fails hwindow hplain hreaches)

/-- A run is portable if what it comes down to is. -/
theorem of_runs (hwindow : action machine = action' machine)
    (hplain : action machine.plain = action' machine.plain)
    (h : Portable refused S action' machine) : Portable refused S action machine := by
  rcases h with ⟨range, left, hrefused⟩ | ⟨hrun, hrun', hreaches⟩ | ⟨hrun, hrun', hreaches⟩
  · exact .inl ⟨range, left, hwindow.trans hrefused⟩
  · exact returns (hwindow.trans hrun) (hplain.trans hrun') hreaches
  · exact fails (hwindow.trans hrun) (hplain.trans hrun') hreaches

/-- A bind is portable if its first part is, and its second part wherever the first one leads. -/
theorem bind (h : Portable refused S action machine)
    (hf : ∀ a left, action machine = .ok a left → Reaches S machine left →
      Portable refused S (f a) left) :
    Portable refused S (action >>= f) machine := by
  rcases h with ⟨range, left, hrefused⟩ | ⟨hrun, hrun', hreaches⟩ | ⟨hrun, hrun', hreaches⟩
  · exact .inl ⟨range, left, bind_of_error hrefused⟩
  · rcases hf _ _ hrun hreaches with
      ⟨range, last, hrefused⟩ | ⟨hnext, hnext', hbeyond⟩ | ⟨hnext, hnext', hbeyond⟩
    · exact .inl ⟨range, last, (bind_of_ok hrun).trans hrefused⟩
    · exact returns ((bind_of_ok hrun).trans hnext) ((bind_of_ok hrun').trans hnext')
        (hreaches.trans hbeyond)
    · exact fails ((bind_of_ok hrun).trans hnext) ((bind_of_ok hrun').trans hnext')
        (hreaches.trans hbeyond)
  · exact fails (bind_of_error hrun) (bind_of_error hrun') hreaches

theorem mapError {g : ε → ε'} (h : Portable refused S action machine) :
    Portable (fun range => g (refused range)) S (action.mapError g) machine := by
  rcases h with ⟨range, left, hrefused⟩ | ⟨hrun, hrun', hreaches⟩ | ⟨hrun, hrun', hreaches⟩
  · exact .inl ⟨range, left, mapError_of_error hrefused⟩
  · exact returns (mapError_of_ok hrun) (mapError_of_ok hrun') hreaches
  · exact fails (mapError_of_error hrun) (mapError_of_error hrun') hreaches

theorem pure (a : α) (machine : Machine) : Portable refused S (Pure.pure a) machine :=
  returns rfl rfl (.refl S machine)

theorem throw (e : ε) (machine : Machine) :
    Portable refused S (throw e : Action ε α) machine :=
  fails rfl rfl (.refl S machine)

theorem log (level : Log.Level) (target message : String) (machine : Machine) :
    Portable refused S (Action.log level target message) machine :=
  returns (log_apply level target message machine) rfl (.of_quiet rfl rfl)

theorem ofExcept_bind {result : Except ε α}
    (hf : ∀ a, result = .ok a → Portable refused S (f a) machine) :
    Portable refused S (Action.ofExcept result >>= f) machine := by
  cases result with
  | ok a => exact hf a rfl
  | error e => exact throw e machine

theorem ram_bind {f : Ram → Action ε β} (h : Portable refused S (f machine.memory.ram) machine) :
    Portable refused S (Action.ram >>= f) machine :=
  of_runs (bind_of_ok (ram_apply machine)) (bind_of_ok (ram_apply machine.plain)) h

theorem log_bind {f : Unit → Action ε β} {level : Log.Level} {target message : String}
    (hf : ∀ noted : Machine, noted.memory = machine.memory → Portable refused S (f ()) noted) :
    Portable refused S (Action.log level target message >>= f) machine := by
  refine (log level target message machine).bind fun _ noted hnoted _ => hf noted ?_
  cases hnoted
  rfl

/-- The accesses that a window above address zero grants lie in the RAM. -/
theorem request {access : Request} (habove : machine.memory.AboveNull)
    (hwrites : ∀ write, Write.ofRequest? access = some write → ∀ a, write.span.Holds a → S a) :
    Portable (fun range => range) S (Action.request access) machine := by
  cases hperform : machine.memory.perform access with
  | error range => exact .inl ⟨range, _, request_of_error hperform⟩
  | ok memory =>
    have hgranted := granted_of_perform habove.isWindow hperform
    have hplain : machine.plain.memory.perform access = .ok memory.plain :=
      hgranted.perform_plain habove
    refine returns (request_of_ok hperform) (request_of_ok hplain) ⟨hgranted.sameShape, ?_⟩
    refine ⟨[access], rfl, fun asked hmem => ?_⟩
    cases List.mem_singleton.mp hmem
    exact ⟨hgranted.covers, hwrites⟩

end Portable

end Action

/-! ## Loads -/

/-- The image shows the same file when bytes in the set of addresses have changed. -/
def Image.Spared (S : Nat → Prop) (image : Image) : Prop :=
  ∀ {file : Bytes} {before after : Memory}, Memory.KeepsOutside S before after →
    image.Shows before.ram file → image.Shows after.ram file

theorem Image.file_spared (S : Nat → Prop) (content : Bytes) : (Image.file content).Spared S :=
  fun _ hshows => ⟨hshows.size, hshows.fetch⟩

theorem Image.view_spared {S : Nat → Prop} {address len : UInt64}
    (hapart : ∀ a, S a → ¬(Span.mk address.toNat len.toNat).Holds a) :
    (Image.view address len).Spared S := by
  intro file before after hkeeps hshows
  refine ⟨hshows.size, fun offset count hcontains => ?_⟩
  rw [← hshows.fetch offset count hcontains]
  have hinside : offset.toNat + count.toNat ≤ len.toNat := contains_iff.mp hcontains
  refine hkeeps.read fun a ⟨hlow, hhigh⟩ hS => hapart a hS ⟨?_, ?_⟩
  · exact Nat.le_trans (Nat.le_add_right _ _) hlow
  · show a < address.toNat + len.toNat
    have hbelow : a < address.toNat + offset.toNat + count.toNat := hhigh
    omega

namespace Elf.Loader

open Chainload.Action Memory

variable {loader : Loader} {image : Image} {file : Bytes} {table : Table} {ph : ProgramHeader}
  {target : UInt64} {S : Nat → Prop} {machine : Machine}

theorem request_portable {access : Request} (habove : machine.memory.AboveNull)
    (hwrites : ∀ write, Write.ofRequest? access = some write → ∀ a, write.span.Holds a → S a) :
    Portable .memory S (request access) machine :=
  (Portable.request habove hwrites).mapError

section Segment

variable (habove : machine.memory.AboveNull)
include habove

theorem copyFile_portable (hshows : image.Shows machine.memory.ram file)
    (hpart : ∀ a, (Span.mk target.toNat ph.fileSize.toNat).Holds a → S a) :
    Portable .memory S (copyFile image target ph) machine := by
  by_cases hempty : ph.fileSize = 0
  · exact .returns (copyFile_of_empty hempty) (copyFile_of_empty hempty) (.refl S machine)
  cases hread : readRange image machine.memory.ram ph.offset ph.fileSize with
  | error fault =>
    exact .fails (copyFile_of_unread hempty hread) (copyFile_of_unread hempty hread)
      (.refl S machine)
  | ok bytes =>
    refine .of_runs (copyFile_of_read hempty hread) (copyFile_of_read hempty hread) ?_
    refine request_portable habove fun write hwrite a ha => hpart a ?_
    cases hwrite
    rw [readRange_of_shows hshows] at hread
    split at hread
    case isFalse => cases hread
    case isTrue hinside =>
      cases hread
      rwa [← Bytes.length_slice hinside]

theorem zeroRest_portable (loader : Loader) (index : Nat)
    (hpart : ∀ a, (Span.mk (loader.zeroStart target ph).toNat ph.zeroFill.toNat).Holds a → S a) :
    Portable .memory S (loader.zeroRest index target ph) machine := by
  unfold zeroRest
  split
  case isFalse => exact .pure () machine
  case isTrue =>
    refine .log_bind fun noted hnoted => request_portable (hnoted ▸ habove) fun write hwrite => ?_
    cases hwrite
    exact hpart

/-- Placing a segment is portable, and what it stores lies in the footprint. -/
theorem placeSegment_portable (loader : Loader) (index : Nat)
    (hshows : image.Shows machine.memory.ram file) (hplaced : ∀ a, ph.Covers loader.width a → S a) :
    Portable .memory S (loader.placeSegment image index ph) machine := by
  unfold placeSegment
  refine .ofExcept_bind fun target htarget => .log_bind fun noted hnoted => ?_
  obtain ⟨hstart, hzero⟩ := target_eq_ok htarget
  rw [← hnoted] at habove hshows
  have hcopy : Portable .memory S (copyFile image target ph) noted := by
    refine copyFile_portable habove hshows fun a ha => ?_
    rw [hstart] at ha
    exact hplaced a (Or.inl ha)
  refine hcopy.bind fun _ copied _ hreaches => ?_
  refine zeroRest_portable (habove.of_sameShape hreaches.toSameShape) loader index fun a ha => ?_
  rw [hzero, ph.toNat_zeroFill] at ha
  exact hplaced a (Or.inr ha)

theorem placeEntry_portable (loader : Loader) (index : Nat)
    (hshows : image.Shows machine.memory.ram file)
    (hplaced : ph.isLoadable = true → ∀ a, ph.Covers loader.width a → S a) :
    Portable .memory S (loader.placeEntry image index ph) machine := by
  unfold placeEntry
  split
  case isTrue hload => exact placeSegment_portable habove loader index hshows (hplaced hload)
  case isFalse => exact .log _ _ _ machine

end Segment

/-- Placing a table is portable if the image does not change where its segments go. -/
theorem placeEntries_portable (hspared : image.Spared S) :
    ∀ {left index : Nat} {machine : Machine}, machine.memory.AboveNull →
      image.Shows machine.memory.ram file →
      (∀ ph ∈ table.entriesFrom file left index, ph.isLoadable = true →
        ∀ a, ph.Covers loader.width a → S a) →
      Portable .memory S (loader.placeEntries image table left index) machine
  | 0, _, machine, _, _, _ => .pure () machine
  | left + 1, index, machine, habove, hshows, hplaced => by
    cases hread : table.read image machine.memory.ram index with
    | error fault =>
      exact .fails (placeEntries_of_unread hread) (placeEntries_of_unread hread) (.refl S machine)
    | ok ph =>
      rw [Table.entriesFrom_succ ((Table.read_eq_ok_iff hshows).mp hread)] at hplaced
      refine .of_runs (placeEntries_of_read hread) (placeEntries_of_read hread) ?_
      have hentry := hplaced ph (List.mem_cons_self ..)
      refine (placeEntry_portable habove loader index hshows hentry).bind
        fun _ placed hrun hreaches => ?_
      have hkeeps := placeEntry_keeps loader image index ph habove.isWindow
      rw [memoryAfter_of_ok hrun] at hkeeps
      exact placeEntries_portable hspared (habove.of_sameShape hreaches.toSameShape)
        (hspared (hkeeps.mono fun a ha => hentry ha.1 a ha.2) hshows)
        fun ph' hmem => hplaced ph' (List.mem_cons_of_mem ph hmem)

/-- A load is portable if the image shows a file and does not change where the segments of the file
go. -/
theorem load_portable (habove : machine.memory.AboveNull)
    (hshows : image.Shows machine.memory.ram file) (hspared : image.Spared S)
    (hwithin : SegmentsWithin loader file S) :
    Portable .memory S (loader.load image) machine := by
  unfold load
  refine .ram_bind (.ofExcept_bind fun header hheader => ?_)
  split
  case h_2 => exact .throw _ machine
  case h_1 entry hentry =>
    refine .log_bind fun noted hnoted => ?_
    rw [← hnoted] at habove hshows
    have hplace : Portable .memory S (loader.placeEntries image header.table
        header.entryCount.toNat 0 >>= fun _ => pure entry) noted := by
      have hfile := ofFile?_of_ofImage hshows (hnoted ▸ hheader)
      rw [SegmentsWithin, segments_of_header hfile] at hwithin
      refine (placeEntries_portable hspared habove hshows fun ph hmem hload => ?_).bind
        fun _ placed _ _ => .pure entry placed
      exact hwithin ph (List.mem_filter.mpr ⟨hmem, hload⟩)
    split
    case isTrue => exact .ram_bind (.ofExcept_bind fun _ _ => hplace)
    case isFalse => exact hplace

end Elf.Loader

/-! ## Modules -/

namespace Chain.Setup

open Chainload.Action Elf Memory Multiboot

variable {setup : Setup} {modules : Modules} {extent : Extent} {S : Nat → Prop}
  {machine : Machine}

/-- A move and a view store nothing, whatever they read and write. -/
theorem request_portable {access : Request} (habove : machine.memory.AboveNull)
    (hstores : Write.ofRequest? access = none) :
    Portable (fun range => .load (.memory range)) S (request access) machine := by
  refine (Portable.request habove fun write hwrite => ?_).mapError
  rw [hstores] at hwrite
  cases hwrite

theorem stage_portable (habove : machine.memory.AboveNull) (setup : Setup) (extent : Extent) :
    Portable (fun range => .load (.memory range)) S (setup.stage extent) machine := by
  simp only [stage]
  split
  case isTrue =>
    refine (Portable.throw _ machine).bind fun _ _ hthrown _ => ?_
    cases hthrown
  case isFalse =>
    refine .log_bind fun noted hnoted => ?_
    rw [← hnoted] at habove
    refine (request_portable habove rfl).bind fun _ moved _ hreaches => ?_
    refine (request_portable (habove.of_sameShape hreaches.toSameShape) rfl).bind
      fun _ viewed _ _ => ?_
    exact .pure _ viewed

/-- Placing a module whose segments avoid the copy that they are read from is portable, and what it
stores avoids the copy too. -/
theorem placeModule_portable (habove : machine.memory.AboveNull)
    (hfirst : modules.first? machine.memory.ram = some extent)
    (havoids : SegmentsAvoid setup.loader (extent.bytes machine.memory.ram)
      (setup.stagedRange extent)) :
    Portable (fun range => .load (.memory range)) (fun a => ¬(setup.stagedRange extent).Holds a)
      (setup.placeModule modules) machine := by
  refine .of_runs (placeModule_of_some hfirst) (placeModule_of_some hfirst) ?_
  refine (stage_portable habove setup extent).bind fun image left hrun hreaches => ?_
  rcases stage_cases habove.isWindow setup extent with
    ⟨fault, after, hfailed, -, -⟩ | ⟨hstaged, staged, hmemory, hstage⟩
  · cases hfailed.symm.trans hrun
  · cases hstage.symm.trans hrun
    have hshows : (Image.view setup.scratch.start extent.length).Shows left.memory.ram
        (extent.bytes machine.memory.ram) :=
      Image.shows_of_read (by rw [hmemory, read_memoryStaged hstaged])
    have hload := Loader.load_portable (habove.of_sameShape hreaches.toSameShape) hshows
      (Image.view_spared fun a hS => hS)
      fun ph hmem a hcovers hholds => havoids.not_covers hmem hholds hcovers
    exact hload.mapError

end Chain.Setup

open Chain Chainload.Action in
/-- Behind a window above address zero, what succeeds or fails without being refused an access goes
the same way by plain pointers: it answers the same, leaves the same bytes and touches nothing
outside the RAM. This holds of the load of a file, and of placing a module if none of its segments
meets the copy that it is loaded from. Nothing that is stored meets the copy then. -/
theorem samePlain_of_not_refused (machine : Machine) (hwindow : machine.memory.mapping = .window)
    (hbase : 1 ≤ machine.memory.ram.base) :
    (∀ (loader : Loader) (file : Bytes),
      (∀ range, (loader.load (.file file)).answer machine ≠ .error (.memory range)) →
        SamePlain (fun _ => True) (loader.load (.file file)) machine) ∧
    ∀ (setup : Setup) (modules : Modules),
      (∀ extent, modules.first? machine.memory.ram = some extent →
        SegmentsAvoid setup.loader (extent.bytes machine.memory.ram) (setup.stagedRange extent)) →
      (∀ range, (setup.placeModule modules).answer machine ≠ .error (.load (.memory range))) →
        SamePlain
          (fun a => ∀ extent, modules.first? machine.memory.ram = some extent →
            ¬(setup.stagedRange extent).Holds a)
          (setup.placeModule modules) machine := by
  have habove : machine.memory.AboveNull := by
    refine ⟨hwindow, fun hzero => ?_⟩
    rw [hzero] at hbase
    exact absurd hbase (by decide)
  constructor
  · intro loader file hgranted
    have hport : Portable .memory (fun _ => True) (loader.load (.file file)) machine :=
      Loader.load_portable habove (Image.shows_file file _) (Image.file_spared _ file)
        fun _ _ _ _ => trivial
    exact hport.samePlain hgranted
  · intro setup modules havoids hgranted
    cases hfirst : modules.first? machine.memory.ram with
    | none =>
      exact .fails (Setup.placeModule_of_none hfirst) (Setup.placeModule_of_none hfirst)
        (.refl _ machine)
    | some extent =>
      have hport := Setup.placeModule_portable habove hfirst (havoids extent hfirst)
      refine (hport.samePlain hgranted).mono fun a hapart extent' hsame => ?_
      cases hsame
      exact hapart

open Chain Chainload.Action in
/-- The module overlaps both its copy and the segment that is loaded from the copy. -/
theorem samePlain_of_not_refused_overlapping :
    let machine := Machine.ofMemory (Setup.memoryWith 0x1010 Setup.lowFile.layOut)
    let load := Setup.cramped.loader.load (.file Setup.lowFile.layOut)
    let place := Setup.cramped.placeModule (.listed [⟨0x1010, 0x1068⟩])
    (machine.memory.mapping = .window ∧ 1 ≤ machine.memory.ram.base) ∧
      (load.answer machine = .ok ⟨0x1000, by decide⟩ ∧ SamePlain (fun _ => True) load machine) ∧
      place.answer machine = .ok ⟨0x1000, by decide⟩ ∧
        SamePlain (fun a => ¬(Setup.cramped.stagedRange ⟨0x1010, 0x1068⟩).Holds a) place
          machine := by
  intro machine load place
  have hload : load.answer machine = .ok ⟨0x1000, by decide⟩ := by decide +kernel
  have hplace : place.answer machine = .ok ⟨0x1000, by decide⟩ := by decide +kernel
  obtain ⟨hsameLoad, hsamePlace⟩ := samePlain_of_not_refused machine rfl (by decide)
  refine ⟨⟨rfl, by decide⟩, ⟨hload, hsameLoad _ _ fun range hrefused => ?_⟩, hplace, ?_⟩
  · cases hload.symm.trans hrefused
  refine (hsamePlace _ _ (fun extent hfirst => ?_) fun range hrefused => ?_).mono fun a hapart => ?_
  · cases hfirst
    decide +kernel
  · cases hplace.symm.trans hrefused
  · exact hapart _ rfl

end Chainload
