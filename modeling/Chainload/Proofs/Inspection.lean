import Chainload.Proofs.FileContents
import Chainload.Proofs.Runs

/-!
# Inspecting an image before it is loaded

A load has two parts. First the loader inspects the image (`Loader.inspect`) : it reads the header
and, if it is strict, checks everything else. It writes nothing meanwhile, so a refusal leaves
memory as it was (`load_of_refused`). Then it places the segments (`load_of_accepted`).

What a strict loader checks of a segment and of a table is spelled out in `checkSegment_eq_ok_iff`
and `checkEntries_succ_eq_ok_iff`. It depends on the bytes that the image shows and on nothing else
(`inspect_congr`).
-/

namespace Chainload.Elf

open Chainload.Action

/-! ## Checks in sequence -/

theorem ok_of_bind {ε α β : Type} {first : Except ε α} {f : α → Except ε β} {b : β}
    (h : first >>= f = .ok b) : ∃ a, first = .ok a ∧ f a = .ok b := by
  cases first with
  | error e => cases h
  | ok a => exact ⟨a, rfl, h⟩

theorem ok_bind {ε α β : Type} (a : α) (f : α → Except ε β) : (Except.ok a >>= f) = f a :=
  rfl

namespace Loader

variable {loader : Loader} {image : Image} {ram : Ram} {table : Table} {ph : ProgramHeader}
  {index left : Nat}

/-- A segment passes if it is no smaller in memory than in the file, its range lies in the image,
and pointers reach its last address. -/
theorem checkSegment_eq_ok_iff :
    loader.checkSegment image index ph = .ok () ↔
      ph.fileSize ≤ ph.memorySize ∧ image.contains ph.offset ph.fileSize = true ∧
        ∃ last, ph.lastAddress? = some last ∧ loader.width.reaches last = true := by
  unfold checkSegment
  by_cases hsizes : ph.memorySize < ph.fileSize
  · simp [hsizes, UInt64.not_le.mpr hsizes]
  · cases hcontains : image.contains ph.offset ph.fileSize with
    | false => simp [hsizes]
    | true =>
      cases hlast : ph.lastAddress? with
      | none => simp [hsizes]
      | some last => simp [hsizes, UInt64.not_lt.mp hsizes]

/-- The first address of a segment is not above its last. -/
theorem le_lastAddress {last : UInt64} (h : ph.lastAddress? = some last) :
    ph.physicalAddress.toNat ≤ last.toNat := by
  unfold ProgramHeader.lastAddress? at h
  generalize (if ph.memorySize = 0 then 0 else ph.memorySize - 1) = beyondFirst at h
  dsimp only at h
  split at h
  case isTrue hlt =>
    cases h
    rw [UInt64.toNat_add, Nat.mod_eq_of_lt hlt]
    exact Nat.le_add_right _ _
  case isFalse => cases h

theorem reaches_of_checkSegment (h : loader.checkSegment image index ph = .ok ()) :
    loader.width.reaches ph.physicalAddress = true := by
  obtain ⟨-, -, last, hlast, hreaches⟩ := checkSegment_eq_ok_iff.mp h
  rw [Width.reaches_iff] at hreaches ⊢
  exact Nat.le_trans (le_lastAddress hlast) hreaches

theorem checkEntries_succ_eq_ok_iff :
    loader.checkEntries image ram table (left + 1) index = .ok () ↔
      ∃ ph, table.read image ram index = .ok ph ∧
        (ph.isLoadable = true → loader.checkSegment image index ph = .ok ()) ∧
        loader.checkEntries image ram table left (index + 1) = .ok () := by
  rw [checkEntries]
  constructor
  · intro h
    obtain ⟨ph, hread, h⟩ := ok_of_bind h
    refine ⟨ph, hread, ?_⟩
    cases hload : ph.isLoadable with
    | false =>
      rw [hload] at h
      exact ⟨(nomatch ·), h⟩
    | true =>
      rw [hload] at h
      obtain ⟨_, hsegment, hrest⟩ := ok_of_bind h
      exact ⟨fun _ => hsegment, hrest⟩
  · rintro ⟨ph, hread, hsegment, hrest⟩
    rw [hread, ok_bind]
    cases hload : ph.isLoadable with
    | false => exact hrest
    | true =>
      rw [hsegment hload]
      exact hrest

theorem checkEntries_of_vet {header : Header} (h : loader.vet image ram header = .ok ()) :
    loader.checkEntries image ram header.table header.entryCount.toNat 0 = .ok () := by
  unfold vet at h
  obtain ⟨-, -, h⟩ := ok_of_bind h
  cases hreaches : loader.width.reaches header.entry with
  | false =>
    rw [hreaches] at h
    cases h
  | true =>
    cases hcontains : image.contains header.tableOffset header.tableSize with
    | false =>
      rw [hreaches, hcontains] at h
      cases h
    | true =>
      rw [hreaches, hcontains] at h
      exact h

/-! ## Inspecting -/

/-- What a loader makes sure of before it writes anything: the header and where the image starts. -/
def inspect (loader : Loader) (image : Image) (ram : Ram) : Except Fault (Header × Entry) := do
  let header ← Header.ofImage image ram loader.cls
  let some entry := Entry.ofAddress? header.entry | throw .entryZero
  if loader.validation.isStrict then
    loader.vet image ram header
  return (header, entry)

theorem inspect_of_unread {fault : Fault}
    (h : Header.ofImage image ram loader.cls = .error fault) :
    loader.inspect image ram = .error fault := by
  rw [inspect, h]
  rfl

/-- Once the header is read, it is up to the entry point and, if the loader is strict, to the other
checks. -/
theorem inspect_of_read {header : Header}
    (h : Header.ofImage image ram loader.cls = .ok header) :
    loader.inspect image ram =
      match Entry.ofAddress? header.entry with
      | none => .error .entryZero
      | some entry =>
        if loader.validation.isStrict then
          (loader.vet image ram header).map fun _ => (header, entry)
        else .ok (header, entry) := by
  rw [inspect, h, ok_bind]
  cases Entry.ofAddress? header.entry with
  | none => rfl
  | some entry =>
    cases loader.validation.isStrict with
    | false => rfl
    | true => cases loader.vet image ram header <;> rfl

theorem address_of_ofAddress? {address : UInt64} {entry : Entry}
    (h : Entry.ofAddress? address = some entry) : entry.address = address := by
  unfold Entry.ofAddress? at h
  split at h
  · cases h
    rfl
  · cases h

/-- An accepted image has a readable header with an entry point, and a strict loader vetted it. -/
theorem inspect_eq_ok_iff {header : Header} {entry : Entry} :
    loader.inspect image ram = .ok (header, entry) ↔
      Header.ofImage image ram loader.cls = .ok header ∧
        Entry.ofAddress? header.entry = some entry ∧
        (loader.validation.isStrict = true → loader.vet image ram header = .ok ()) := by
  unfold inspect
  constructor
  · intro h
    obtain ⟨header', hheader, h⟩ := ok_of_bind h
    cases hentry : Entry.ofAddress? header'.entry with
    | none =>
      rw [hentry] at h
      cases h
    | some entry' =>
      simp only [hentry] at h
      cases hstrict : loader.validation.isStrict with
      | false =>
        rw [hstrict] at h
        cases h
        exact ⟨hheader, hentry, (nomatch ·)⟩
      | true =>
        rw [hstrict] at h
        obtain ⟨_, hvet, h⟩ := ok_of_bind h
        cases h
        exact ⟨hheader, hentry, fun _ => hvet⟩
  · rintro ⟨hheader, hentry, hvet⟩
    rw [hheader, ok_bind]
    simp only [hentry]
    cases hstrict : loader.validation.isStrict with
    | false => rfl
    | true =>
      rw [hvet hstrict]
      rfl

/-! ## Images that show the same file -/

section Congr

variable {image' : Image} {ram' : Ram} {file : Bytes} (h : image.Shows ram file)
  (h' : image'.Shows ram' file)
include h h'

theorem checkSegment_congr (index : Nat) (ph : ProgramHeader) :
    loader.checkSegment image index ph = loader.checkSegment image' index ph := by
  rw [checkSegment, checkSegment, h.contains_congr h']

theorem checkEntries_congr (table : Table) :
    ∀ left index : Nat, loader.checkEntries image ram table left index =
      loader.checkEntries image' ram' table left index
  | 0, _ => rfl
  | left + 1, index => by
    simp only [checkEntries, Table.read_congr h h', checkSegment_congr h h',
      checkEntries_congr table left]

/-- An inspection depends on the file alone, not on how it is shown. -/
theorem inspect_congr : loader.inspect image ram = loader.inspect image' ram' := by
  simp only [inspect, vet, ofImage_congr h h', h.contains_congr h', checkEntries_congr h h']

end Congr

/-! ## The two parts of a load -/

/-- The machine after the line that announces a load. -/
def announced (machine : Machine) (header : Header) (entry : Entry) : Machine :=
  { machine with
    records := machine.records ++ [⟨.debug, logTarget, loadMessage header entry⟩] }

variable {machine after : Machine} {fault : Fault} {header : Header} {entry : Entry}

/-- A refusal leaves memory as it was. -/
theorem load_of_refused (h : loader.inspect image machine.memory.ram = .error fault) :
    ∃ records, loader.load image machine = .error fault { machine with records } := by
  unfold load
  rw [bind_apply, ram_apply]
  simp only [bind_apply, ofExcept_apply]
  unfold inspect at h
  cases hheader : Header.ofImage image machine.memory.ram loader.cls with
  | error fault' =>
    rw [hheader] at h
    cases h
    exact ⟨machine.records, rfl⟩
  | ok header =>
    rw [hheader, ok_bind] at h
    cases hentry : Entry.ofAddress? header.entry with
    | none =>
      simp only [hentry] at h
      cases h
      exact ⟨machine.records, by simp only [hentry]; rfl⟩
    | some entry =>
      simp only [hentry] at h
      cases hstrict : loader.validation.isStrict with
      | false =>
        rw [hstrict] at h
        cases h
      | true =>
        rw [hstrict] at h
        cases hvet : loader.vet image machine.memory.ram header with
        | ok _ =>
          rw [hvet] at h
          cases h
        | error fault' =>
          rw [hvet] at h
          cases h
          refine ⟨machine.records ++ [⟨.debug, logTarget, loadMessage header entry⟩], ?_⟩
          simp only [hentry, bind_apply, note, log_apply, if_true, ram_apply, ofExcept_apply, hvet]

/-- An accepted image is announced and its segments are placed. -/
theorem load_of_accepted (h : loader.inspect image machine.memory.ram = .ok (header, entry)) :
    loader.load image machine =
      (loader.placeEntries image header.table header.entryCount.toNat 0 >>= fun _ => pure entry)
        (announced machine header entry) := by
  obtain ⟨hheader, hentry, hvet⟩ := inspect_eq_ok_iff.mp h
  have hnote : note .debug (loadMessage header entry) machine =
      (.ok () (announced machine header entry) : EStateM.Result Fault Machine Unit) := rfl
  unfold load
  rw [bind_of_ok (ram_apply machine), hheader, bind_of_ok (ofExcept_apply (.ok header) machine)]
  simp only [hentry]
  rw [bind_of_ok hnote]
  cases hstrict : loader.validation.isStrict with
  | false => rfl
  | true =>
    have hram : (announced machine header entry).memory.ram = machine.memory.ram := rfl
    rw [if_pos rfl, bind_of_ok (ram_apply _), hram, hvet hstrict,
      bind_of_ok (ofExcept_apply (.ok ()) _)]

/-- A load that returns was accepted and placed the table of the header to its end. -/
theorem load_eq_ok (h : loader.load image machine = .ok entry after) :
    ∃ header, loader.inspect image machine.memory.ram = .ok (header, entry) ∧
      loader.placeEntries image header.table header.entryCount.toNat 0
        (announced machine header entry) = .ok () after := by
  cases hinspect : loader.inspect image machine.memory.ram with
  | error fault =>
    obtain ⟨records, heq⟩ := load_of_refused hinspect
    rw [heq] at h
    cases h
  | ok found =>
    obtain ⟨header, entry'⟩ := found
    rw [load_of_accepted hinspect] at h
    obtain ⟨⟨⟩, between, hplace, hpure⟩ := bind_eq_ok_iff.mp h
    cases hpure
    exact ⟨header, rfl, hplace⟩

/-- A load that fails was refused or could not place the table of the header. -/
theorem load_eq_error (h : loader.load image machine = .error fault after) :
    loader.inspect image machine.memory.ram = .error fault ∧ after.memory = machine.memory ∨
      ∃ header entry, loader.inspect image machine.memory.ram = .ok (header, entry) ∧
        loader.placeEntries image header.table header.entryCount.toNat 0
          (announced machine header entry) = .error fault after := by
  cases hinspect : loader.inspect image machine.memory.ram with
  | error fault' =>
    obtain ⟨records, heq⟩ := load_of_refused hinspect
    rw [heq] at h
    cases h
    exact Or.inl ⟨rfl, rfl⟩
  | ok found =>
    obtain ⟨header, entry⟩ := found
    rw [load_of_accepted hinspect] at h
    rcases bind_eq_error_iff.mp h with hplace | ⟨⟨⟩, between, -, hpure⟩
    · exact Or.inr ⟨header, entry, rfl, hplace⟩
    · cases hpure

end Loader

end Chainload.Elf
