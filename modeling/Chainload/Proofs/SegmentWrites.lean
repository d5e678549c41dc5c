import Mathlib.Data.List.Basic
import Chainload.Proofs.Requirements

/-!
# What a strict load asks of memory

A load asks memory for stores and clears only, in the order of the table. `Action.Asks` says what a
run asks for: all of a list of accesses if it returns, and if memory refuses one of them, those up
to that one.

A strict loader cuts addresses down to the pointer width and adds words that may wrap, like a
trusting one. For a segment that passed its checks neither makes a difference. What is asked for are
the writes that the numbers in the program header describe (`ProgramHeader.writes`), each of which
stays within reach of the pointers (`Loader.strict_load_writes`).
-/

namespace Chainload

open Elf

/-! ## Writes -/

/-- A write of bytes at consecutive addresses, which may lie anywhere. -/
inductive Write
  /-- The bytes go to the addresses from `start` on. -/
  | copy (start : Nat) (bytes : Bytes)
  /-- `len` zeros go to the addresses from `start` on. -/
  | zeros (start len : Nat)
  deriving DecidableEq, Repr

namespace Write

/-- The addresses that are written. -/
def span : Write → Span
  | copy start bytes => ⟨start, bytes.length⟩
  | zeros start len => ⟨start, len⟩

/-- The write that a store or a clear asks for. -/
def ofRequest? : Request → Option Write
  | .store target bytes => some (copy target.toNat bytes)
  | .clear target len => some (zeros target.toNat len.toNat)
  | .move .. => none
  | .view .. => none

end Write

/-- The writes of a segment: the bytes that the file holds of it go to its physical address, and
zeros from there on to the end of the memory that it takes up. -/
def Elf.ProgramHeader.writes (file : Bytes) (ph : ProgramHeader) : List Write :=
  (if 0 < ph.fileSize.toNat then
    [.copy ph.physicalAddress.toNat (file.slice ph.offset.toNat ph.fileSize.toNat)] else []) ++
  (if ph.fileSize.toNat < ph.memorySize.toNat then
    [.zeros (ph.physicalAddress.toNat + ph.fileSize.toNat)
      (ph.memorySize.toNat - ph.fileSize.toNat)] else [])

/-! ## What a run asks for -/

namespace Memory

variable {memory : Memory} {range : OutOfRange}

theorem mem_of_refusal? {address : UInt64} {len : Nat}
    (h : memory.refusal? address len = some range) : range ∈ [⟨address, UInt64.ofNat len⟩] := by
  unfold refusal? at h
  split at h
  · cases h
  · exact List.mem_singleton.mpr (Option.some.inj h).symm

/-- A write fails only if its range is refused. -/
theorem refusal_of_error {passes : Bool} {refusal? : Option OutOfRange} {kept written : Memory}
    (h : (if passes then .ok kept
      else match refusal? with
        | some range => .error range
        | none => .ok written : Except OutOfRange Memory) = .error range) :
    refusal? = some range := by
  split at h
  · cases h
  · split at h <;> cases h
    rfl

/-- Memory names a range of the access that it refuses. -/
theorem mem_ranges_of_perform {access : Request} (h : memory.perform access = .error range) :
    range ∈ access.ranges := by
  cases access with
  | store target bytes => exact mem_of_refusal? (refusal_of_error h)
  | clear target len =>
    have hmem := mem_of_refusal? (refusal_of_error h)
    rwa [UInt64.ofNat_toNat] at hmem
  | move target source len =>
    rcases Option.or_eq_some_iff.mp (refusal_of_error h) with htarget | ⟨-, hsource⟩
    · have hmem := mem_of_refusal? htarget
      rw [UInt64.ofNat_toNat] at hmem
      exact List.mem_append_left [_] hmem
    · have hmem := mem_of_refusal? hsource
      rw [UInt64.ofNat_toNat] at hmem
      exact List.mem_cons_of_mem _ hmem
  | view address len =>
    simp only [perform, view] at h
    split at h <;> cases h
    case h_1 hrefusal =>
      have hmem := mem_of_refusal? hrefusal
      rwa [UInt64.ofNat_toNat] at hmem

end Memory

namespace Action

variable {α β : Type}

/-- A run asks for the accesses one after the other: for all of them if it returns, and otherwise up
to one that memory refuses. -/
structure Asks (action : Action Fault α) (machine : Machine) (accesses : List Request) : Prop where
  of_ok : ∀ {a after}, action machine = .ok a after →
    after.requests = machine.requests ++ accesses
  of_error : ∀ {fault after}, action machine = .error fault after →
    ∃ granted refused range, fault = .memory range ∧ range ∈ refused.ranges ∧
      granted ++ [refused] <+: accesses ∧
      after.requests = machine.requests ++ (granted ++ [refused])

namespace Asks

variable {action : Action Fault α} {f : α → Action Fault β} {machine : Machine}
  {first second : List Request}

theorem of_returns {a : α} {after : Machine} (h : action machine = .ok a after)
    (hsame : after.requests = machine.requests) : Asks action machine [] where
  of_ok hok := by
    cases h.symm.trans hok
    rw [hsame, List.append_nil]
  of_error herror := by cases h.symm.trans herror

/-- Runs that come down to the same ask for the same. -/
theorem of_runs {action' : Action Fault α} {machine' : Machine}
    (h : action machine = action' machine') (hsame : machine'.requests = machine.requests)
    (hasks : Asks action' machine' first) : Asks action machine first where
  of_ok hok := by rw [← hsame, hasks.of_ok (h.symm.trans hok)]
  of_error herror := by rw [← hsame]; exact hasks.of_error (h.symm.trans herror)

theorem bind (hfirst : Asks action machine first)
    (hsecond : ∀ a between, action machine = .ok a between → Asks (f a) between second) :
    Asks (action >>= f) machine (first ++ second) where
  of_ok hok := by
    obtain ⟨a, between, hrun, hrest⟩ := bind_eq_ok_iff.mp hok
    rw [(hsecond a between hrun).of_ok hrest, hfirst.of_ok hrun, List.append_assoc]
  of_error herror := by
    rcases bind_eq_error_iff.mp herror with hrun | ⟨a, between, hrun, hrest⟩
    · obtain ⟨granted, refused, range, hfault, hrange, hprefix, hafter⟩ := hfirst.of_error hrun
      exact ⟨granted, refused, range, hfault, hrange, hprefix.trans (List.prefix_append ..), hafter⟩
    · obtain ⟨granted, refused, range, hfault, hrange, hprefix, hafter⟩ :=
        (hsecond a between hrun).of_error hrest
      refine ⟨first ++ granted, refused, range, hfault, hrange, ?_, ?_⟩
      · rw [List.append_assoc]
        exact (List.prefix_append_right_inj first).mpr hprefix
      · rw [hafter, hfirst.of_ok hrun]
        simp only [List.append_assoc]

theorem request (access : Request) (machine : Machine) :
    Asks (Loader.request access) machine [access] where
  of_ok hok := by
    obtain ⟨memory, -, rfl⟩ := Loader.request_eq_ok_iff.mp hok
    rfl
  of_error herror := by
    unfold Loader.request at herror
    cases hperform : machine.memory.perform access with
    | ok memory =>
      rw [mapError_of_ok (request_of_ok hperform)] at herror
      cases herror
    | error range =>
      rw [mapError_of_error (request_of_error hperform)] at herror
      cases herror
      exact ⟨[], access, range, rfl, Memory.mem_ranges_of_perform hperform, List.prefix_rfl, rfl⟩

end Asks

end Action

namespace Elf

open Chainload.Action

/-- What was asked for up to an access that belongs to one of the segments: everything for those
before it, and a first part of what that segment needs. -/
theorem exists_of_prefix_flatMap {f : ProgramHeader → List Request} {granted : List Request}
    {refused : Request} :
    ∀ {list : List ProgramHeader}, granted ++ [refused] <+: list.flatMap f →
      ∃ placed ph rest begun, list = placed ++ ph :: rest ∧ granted = placed.flatMap f ++ begun ∧
        begun ++ [refused] <+: f ph
  | [], h => by simp at h
  | ph :: rest, h => by
    rw [List.flatMap_cons] at h
    have hwithin : granted ++ [refused] <+: f ph →
        ∃ placed ph' rest' begun, ph :: rest = placed ++ ph' :: rest' ∧
          granted = placed.flatMap f ++ begun ∧ begun ++ [refused] <+: f ph' :=
      fun hprefix => ⟨[], ph, rest, granted, rfl, rfl, hprefix⟩
    rcases List.prefix_or_prefix_of_prefix h (List.prefix_append ..) with hprefix | hbeyond
    · exact hwithin hprefix
    rcases List.prefix_concat_iff.mp hbeyond with hall | ⟨granted, rfl⟩
    · exact hwithin (hall ▸ List.prefix_rfl)
    · rw [List.append_assoc, List.prefix_append_right_inj] at h
      obtain ⟨placed, ph', rest', begun, rfl, rfl, hprefix⟩ := exists_of_prefix_flatMap h
      exact ⟨ph :: placed, ph', rest', begun, rfl, by simp, hprefix⟩

namespace Loader

variable {loader : Loader} {file : Bytes} {table : Table} {ph : ProgramHeader} {target : UInt64}
  {index left : Nat} {machine : Machine}

/-- What a loader asks for to place a segment that it copies to its physical address. -/
def accesses (loader : Loader) (file : Bytes) (ph : ProgramHeader) : List Request :=
  (if ph.fileSize ≠ 0 then
    [.store ph.physicalAddress (file.slice ph.offset.toNat ph.fileSize.toNat)] else []) ++
  (if ph.zeroFill ≠ 0 then [.clear (loader.zeroStart ph.physicalAddress ph) ph.zeroFill] else [])

theorem copyFile_asks (target : UInt64) (machine : Machine)
    (h : ph.offset.toNat + ph.fileSize.toNat ≤ file.length) :
    Asks (copyFile (.file file) target ph) machine
      (if ph.fileSize ≠ 0 then
        [.store target (file.slice ph.offset.toNat ph.fileSize.toNat)] else []) := by
  by_cases hempty : ph.fileSize = 0
  · rw [if_neg (fun hne => hne hempty)]
    exact .of_returns (copyFile_of_empty hempty) rfl
  · have hread : readRange (.file file) machine.memory.ram ph.offset ph.fileSize =
        .ok (file.slice ph.offset.toNat ph.fileSize.toNat) := by
      rw [readRange_of_shows (Image.shows_file file _), if_pos h]
    rw [if_pos hempty]
    exact .of_runs (copyFile_of_read hempty hread) rfl (.request _ machine)

theorem zeroRest_asks (loader : Loader) (index : Nat) (target : UInt64) (ph : ProgramHeader)
    (machine : Machine) :
    Asks (loader.zeroRest index target ph) machine
      (if ph.zeroFill ≠ 0 then [.clear (loader.zeroStart target ph) ph.zeroFill] else []) := by
  by_cases hnone : ph.zeroFill = 0
  · rw [if_neg (fun hne => hne hnone)]
    exact .of_returns (zeroRest_of_none hnone) rfl
  · obtain ⟨records, heq⟩ := zeroRest_of_some loader index target machine hnone
    rw [if_pos hnone]
    exact .of_runs heq rfl (.request _ _)

theorem placeSegment_asks (machine : Machine)
    (h : loader.checkSegment (.file file) index ph = .ok ()) :
    Asks (loader.placeSegment (.file file) index ph) machine (loader.accesses file ph) := by
  have htarget : loader.target ph.physicalAddress = .ok ph.physicalAddress :=
    if_pos (reaches_of_checkSegment h)
  have hinside := Image.contains_iff.mp (checkSegment_eq_ok_iff.mp h).2.1
  obtain ⟨records, heq⟩ := placeSegment_of_target (.file file) index machine htarget
  exact .of_runs heq rfl
    ((copyFile_asks _ _ hinside).bind fun _ _ _ => zeroRest_asks ..)

/-- Placing a table that passed its checks asks for what its segments need, in table order. -/
theorem placeEntries_asks :
    ∀ {left index : Nat} (machine : Machine),
      loader.checkEntries (.file file) machine.memory.ram table left index = .ok () →
      Asks (loader.placeEntries (.file file) table left index) machine
        (((table.entriesFrom file left index).filter ProgramHeader.isLoadable).flatMap
          (loader.accesses file))
  | 0, _, _, _ => .of_returns rfl rfl
  | left + 1, index, machine, h => by
    obtain ⟨ph, hread, hsegment, hrest⟩ := checkEntries_succ_eq_ok_iff.mp h
    rw [Table.entriesFrom_succ ((Table.read_eq_ok_iff (Image.shows_file file _)).mp hread)]
    refine .of_runs (placeEntries_of_read hread) rfl ?_
    have hrests : ∀ between : Machine,
        Asks (loader.placeEntries (.file file) table left (index + 1)) between _ := fun between =>
      placeEntries_asks between (by
        rw [← hrest]
        exact checkEntries_congr (Image.shows_file ..) (Image.shows_file ..) table left (index + 1))
    cases hload : ph.isLoadable with
    | false =>
      obtain ⟨records, heq⟩ := placeEntry_of_skipped loader (.file file) index machine hload
      rw [List.filter_cons_of_neg (by rw [hload]; decide)]
      exact (Asks.of_returns heq rfl).bind fun _ between _ => hrests between
    | true =>
      rw [List.filter_cons_of_pos hload, List.flatMap_cons, placeEntry_of_loadable hload]
      exact (placeSegment_asks machine (hsegment hload)).bind fun _ between _ => hrests between

/-! ## Words and numbers -/

/-- A segment that passed its checks has room for its bytes in memory and in the file, and ends
within reach. -/
theorem bounds_of_checkSegment (h : loader.checkSegment (.file file) index ph = .ok ()) :
    ph.fileSize.toNat ≤ ph.memorySize.toNat ∧
      ph.offset.toNat + ph.fileSize.toNat ≤ file.length ∧
      ph.lastByte ≤ loader.width.highest.toNat := by
  rw [checkSegment_eq_verdict, verdict_eq_ok_iff] at h
  simpa [segmentRequirements] using h

/-- The zeros of a segment that passed its checks start behind the bytes of the file: the sum does
not wrap, and nothing is cut off. -/
theorem toNat_zeroStart (h : ph.lastByte ≤ loader.width.highest.toNat)
    (hzeros : ph.fileSize.toNat < ph.memorySize.toNat) :
    (loader.zeroStart ph.physicalAddress ph).toNat =
      ph.physicalAddress.toNat + ph.fileSize.toNat := by
  unfold ProgramHeader.lastByte at h
  exact toNat_truncate_add (by omega)

/-- What a strict loader asks for are the writes of the segment. -/
theorem accesses_eq_writes (h : loader.checkSegment (.file file) index ph = .ok ()) :
    (loader.accesses file ph).map Write.ofRequest? = (ph.writes file).map some := by
  obtain ⟨-, -, hlast⟩ := bounds_of_checkSegment h
  have hempty : ph.fileSize ≠ 0 ↔ 0 < ph.fileSize.toNat := by
    rw [Nat.pos_iff_ne_zero, ne_eq, ne_eq, ← UInt64.toNat_inj, UInt64.toNat_zero]
  have hnone : ph.zeroFill ≠ 0 ↔ ph.fileSize.toNat < ph.memorySize.toNat := by
    rw [ne_eq, ← UInt64.toNat_inj, UInt64.toNat_zero, ph.toNat_zeroFill]
    omega
  simp only [accesses, ProgramHeader.writes, hempty, hnone, List.map_append]
  congr 1
  · split <;> rfl
  · split
    case isTrue hzeros =>
      simp only [List.map_cons, List.map_nil, Write.ofRequest?, toNat_zeroStart hlast hzeros,
        ph.toNat_zeroFill]
    case isFalse => rfl

end Loader

/-- The writes of a segment are as long as its header says, none is empty, and none leaves the
reach of the pointers. -/
structure ProgramHeader.WritesWithin (width : Width) (file : Bytes) (ph : ProgramHeader) :
    Prop where
  copied : (file.slice ph.offset.toNat ph.fileSize.toNat).length = ph.fileSize.toNat
  nonempty : ∀ write ∈ ph.writes file, 0 < write.span.len
  reached : ∀ write ∈ ph.writes file, ∀ a, write.span.Holds a → a ≤ width.highest.toNat

namespace Loader

variable {loader : Loader} {file : Bytes} {ph : ProgramHeader} {index : Nat}

theorem writesWithin_of_checkSegment (h : loader.checkSegment (.file file) index ph = .ok ()) :
    ph.WritesWithin loader.width file := by
  obtain ⟨hsizes, hinside, hlast⟩ := bounds_of_checkSegment h
  have hcopied : (file.slice ph.offset.toNat ph.fileSize.toNat).length = ph.fileSize.toNat :=
    Bytes.length_slice hinside
  have hwrites : ∀ write ∈ ph.writes file,
      0 < write.span.len ∧ write.span.start + write.span.len ≤
        ph.physicalAddress.toNat + ph.memorySize.toNat := by
    intro write hmem
    rcases List.mem_append.mp hmem with hcopy | hzeros
    · split at hcopy
      case isFalse => cases hcopy
      case isTrue hpos =>
        obtain rfl := List.mem_singleton.mp hcopy
        simp only [Write.span, hcopied]
        omega
    · split at hzeros
      case isFalse => cases hzeros
      case isTrue hpos =>
        obtain rfl := List.mem_singleton.mp hzeros
        simp only [Write.span]
        omega
  refine ⟨hcopied, fun write hmem => (hwrites write hmem).1, fun write hmem a ha => ?_⟩
  obtain ⟨hpos, hend⟩ := hwrites write hmem
  have hbelow := ha.2
  unfold ProgramHeader.lastByte at hlast
  omega

/-- Of a file that a strict loader accepted every segment passed its checks. -/
theorem checkSegment_of_checkEntries {table : Table} {ram : Ram} :
    ∀ {left index : Nat}, loader.checkEntries (.file file) ram table left index = .ok () →
      ∀ ph ∈ (table.entriesFrom file left index).filter ProgramHeader.isLoadable,
        ∃ index, loader.checkSegment (.file file) index ph = .ok ()
  | 0, _, _, _, hmem => nomatch hmem
  | left + 1, index, h, ph, hmem => by
    obtain ⟨first, hread, hsegment, hrest⟩ := checkEntries_succ_eq_ok_iff.mp h
    rw [Table.entriesFrom_succ ((Table.read_eq_ok_iff (Image.shows_file file _)).mp hread)] at hmem
    obtain ⟨hmem, hload⟩ := List.mem_filter.mp hmem
    rcases List.mem_cons.mp hmem with rfl | hmem
    · exact ⟨index, hsegment hload⟩
    · exact checkSegment_of_checkEntries hrest ph (List.mem_filter.mpr ⟨hmem, hload⟩)

theorem map_accesses {placed : List ProgramHeader}
    (h : ∀ ph ∈ placed, ∃ index, loader.checkSegment (.file file) index ph = .ok ()) :
    (placed.flatMap (loader.accesses file)).map Write.ofRequest? =
      (placed.flatMap (ProgramHeader.writes file)).map some := by
  rw [List.map_flatMap, List.map_flatMap]
  refine List.flatMap_congr fun ph hmem => ?_
  obtain ⟨index, hcheck⟩ := h ph hmem
  exact accesses_eq_writes hcheck

/-- The first accesses to place a segment are the first of its writes. -/
theorem exists_begun {begun : List Request}
    (h : loader.checkSegment (.file file) index ph = .ok ())
    (hbegun : begun <+: loader.accesses file ph) :
    ∃ writes, writes <+: ph.writes file ∧ begun.map Write.ofRequest? = writes.map some := by
  refine ⟨(ph.writes file).take begun.length, List.take_prefix _ _, ?_⟩
  rw [List.map_take, ← accesses_eq_writes h, ← List.map_take, ← List.prefix_iff_eq_take.mp hbegun]

/-- The load of a file that a strict loader accepts asks for what its segments need, and each of
them passed its checks. -/
theorem load_asks {machine : Machine} {header : Header} {entry : Entry}
    (hstrict : loader.validation = .strict)
    (h : loader.inspect (.file file) machine.memory.ram = .ok (header, entry)) :
    Asks (loader.load (.file file)) machine
        ((segments loader.cls file).flatMap (loader.accesses file)) ∧
      ∀ ph ∈ segments loader.cls file,
        ∃ index, loader.checkSegment (.file file) index ph = .ok () := by
  obtain ⟨hofImage, -, hvet⟩ := inspect_eq_ok_iff.mp h
  have hchecks := checkEntries_of_vet (hvet (by rw [hstrict]; rfl))
  rw [segments_of_header (ofFile?_of_ofImage (Image.shows_file file _) hofImage)]
  refine ⟨?_, checkSegment_of_checkEntries hchecks⟩
  refine .of_runs (load_of_accepted h) rfl ?_
  have hplace := placeEntries_asks (announced machine header entry) hchecks
  have hload := hplace.bind (f := fun _ => pure entry) fun _ between _ =>
    .of_returns (pure_apply entry between) rfl
  rwa [List.append_nil] at hload

/-- A strict load is refused before it asks for anything; or it asks for the writes of all segments,
in table order, and returns; or memory refuses a write of some segment, and the load has asked for
all writes of the segments before that one and for those of that one up to the refused write. No
write is empty, and no address in one is out of reach of the pointers. -/
theorem strict_load_writes (cls : Class) (width : Width) (file : Bytes) (machine : Machine) :
    (∃ fault after, load ⟨cls, width, .strict⟩ (.file file) machine = .error fault after ∧
      after.requests = machine.requests) ∨
    (∃ entry after requests,
      load ⟨cls, width, .strict⟩ (.file file) machine = .ok entry after ∧
      after.requests = machine.requests ++ requests ∧
      requests.map Write.ofRequest? =
        ((segments cls file).flatMap (ProgramHeader.writes file)).map some ∧
      ∀ ph ∈ segments cls file, ph.WritesWithin width file) ∨
    ∃ range after placed ph rest begun requests refused,
      load ⟨cls, width, .strict⟩ (.file file) machine = .error (.memory range) after ∧
      segments cls file = placed ++ ph :: rest ∧ begun ≠ [] ∧ begun <+: ph.writes file ∧
      after.requests = machine.requests ++ requests ∧
      requests.map Write.ofRequest? =
        (placed.flatMap (ProgramHeader.writes file) ++ begun).map some ∧
      requests.getLast? = some refused ∧ range ∈ refused.ranges ∧
      ∀ ph' ∈ placed ++ [ph], ph'.WritesWithin width file := by
  cases hinspect : inspect ⟨cls, width, .strict⟩ (.file file) machine.memory.ram with
  | error fault =>
    obtain ⟨records, hrefused⟩ := load_of_refused hinspect
    exact Or.inl ⟨fault, _, hrefused, rfl⟩
  | ok found =>
    obtain ⟨hasks, hchecks⟩ := load_asks rfl hinspect
    have hwithin : ∀ ph ∈ segments cls file, ph.WritesWithin width file := fun ph hmem =>
      have ⟨_, hcheck⟩ := hchecks ph hmem
      writesWithin_of_checkSegment hcheck
    cases hload : load ⟨cls, width, .strict⟩ (.file file) machine with
    | ok entry after =>
      exact Or.inr (Or.inl
        ⟨entry, after, _, rfl, hasks.of_ok hload, map_accesses hchecks, hwithin⟩)
    | error fault after =>
      obtain ⟨granted, refused, range, rfl, hrange, hprefix, hafter⟩ := hasks.of_error hload
      obtain ⟨placed, ph, rest, begun, hsegments, rfl, hbegun⟩ := exists_of_prefix_flatMap hprefix
      have hmem : ∀ ph' ∈ placed ++ [ph], ph' ∈ segments cls file := fun ph' hmem => by
        rw [hsegments, List.append_cons]
        exact List.mem_append_left rest hmem
      obtain ⟨index, hcheck⟩ := hchecks ph (hmem ph (by simp))
      obtain ⟨writes, hwrites, hmap⟩ := exists_begun hcheck hbegun
      have hplaced := map_accesses fun ph' hph =>
        hchecks ph' (hmem ph' (List.mem_append_left _ hph))
      refine Or.inr (Or.inr ⟨range, after, placed, ph, rest, writes, _, refused, rfl, hsegments, ?_,
        hwrites, hafter, ?_, List.getLast?_concat, hrange,
        fun ph' hph => hwithin ph' (hmem ph' hph)⟩)
      · rintro rfl
        simp at hmap
      · rw [List.append_assoc, List.map_append, hplaced, hmap, List.map_append]

/-- A segment may end at the highest address of all. No sum wraps on the way to it. -/
theorem strict_load_writes_to_highest :
    let file := Draft.layOut { Draft.ofClass .elf64 with
      entry := 0x10, segments := [⟨loadable, 0xFFFF_FFFF_FFFF_FFF8, none, [1, 2], 8⟩] }
    let machine := Machine.ofMemory
      ⟨.window, ⟨0xFFFF_FFFF_FFFF_FFF0, List.replicate 16 0xAA⟩⟩
    ∃ entry after, load ⟨.elf64, .bits64, .strict⟩ (.file file) machine = .ok entry after ∧
      after.requests.map Write.ofRequest? =
        [some (.copy 0xFFFF_FFFF_FFFF_FFF8 [1, 2]), some (.zeros 0xFFFF_FFFF_FFFF_FFFA 6)] := by
  intro file machine
  have haccepted : (load ⟨.elf64, .bits64, .strict⟩ (.file file)).answer machine =
      .ok ⟨0x10, by decide⟩ := by decide +kernel
  obtain ⟨after, hload⟩ := ok_of_answer haccepted
  have hsegments : (segments .elf64 file).flatMap (ProgramHeader.writes file) =
      [.copy 0xFFFF_FFFF_FFFF_FFF8 [1, 2], .zeros 0xFFFF_FFFF_FFFF_FFFA 6] := by decide +kernel
  refine ⟨_, after, hload, ?_⟩
  rcases strict_load_writes .elf64 .bits64 file machine with
    ⟨fault, left, hrefused, -⟩ | ⟨entry, left, requests, hok, hrequests, hwrites, -⟩ |
      ⟨range, left, _, _, _, _, _, _, hrefused, -⟩
  · cases hload.symm.trans hrefused
  · cases hload.symm.trans hok
    rw [hrequests, List.map_append, hwrites, hsegments]
    rfl
  · cases hload.symm.trans hrefused

end Loader

end Elf

end Chainload
