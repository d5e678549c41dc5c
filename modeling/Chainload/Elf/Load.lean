import Chainload.Elf.Reading
import Chainload.Machine
import Chainload.Validation

/-!
# Loading an image

`Loader.load` places the loadable segments of an image at their physical addresses and returns the
entry point. The program headers are taken in table order and read as memory holds them when their
turn comes. Of each loadable segment the bytes of the file are copied and the rest is zeroed; other
entries are skipped.

A strict loader checks the header and the whole table before it writes anything (`Loader.vet`). A
trusting one checks the magic alone and cuts addresses down to the pointer width.
-/

namespace Chainload.Elf

/-- The address that no stage can start at. -/
def nowhere : UInt64 := 0

/-- Where a loaded image starts. It is never zero. -/
structure Entry where
  address : UInt64
  address_ne : address ≠ nowhere
  deriving DecidableEq, Repr

namespace Entry

/-- The entry address, if the address is not zero. -/
def ofAddress? (address : UInt64) : Option Entry :=
  if h : address ≠ nowhere then some ⟨address, h⟩ else none

/-- The address as diagnostics show it. -/
def text (entry : Entry) : String :=
  Numeral.hex entry.address.toNat

end Entry

/-- What a loader expects of an image and how far it trusts it. -/
structure Loader where
  cls : Class
  /-- The pointer width of the code that copies. -/
  width : Width
  validation : Validation
  deriving DecidableEq, Repr

namespace Loader

open Numeral

/-- Loads 64-bit images from 32-bit flat mode. -/
def inFlatMode : Loader := ⟨.elf64, .bits32, .trusted⟩

/-- Loads 64-bit images from long mode. -/
def inLongMode : Loader := ⟨.elf64, .bits64, .trusted⟩

/-- The name under which a loader logs. -/
def logTarget : String := "boot_elf::loader"

/-- Logs a line of the loader. -/
def note {ε : Type} (level : Log.Level) (message : String) : Action ε Unit :=
  Action.log level logTarget message

/-! ## Checks before loading -/

/-- Checks one loadable segment: its sizes, its range in the image and its last address. -/
def checkSegment (loader : Loader) (image : Image) (index : Nat) (ph : ProgramHeader) :
    Except Fault Unit :=
  if ph.memorySize < ph.fileSize then
    .error (.memoryBelowFile index ph.fileSize ph.memorySize)
  else if !image.contains ph.offset ph.fileSize then
    .error (.image ⟨ph.offset, ph.fileSize⟩)
  else match ph.lastAddress? with
    | none => .error (.beyondReach ph.physicalAddress loader.width)
    | some last =>
      if loader.width.reaches last then .ok () else .error (.beyondReach last loader.width)

/-- Checks the loadable segments among `left` program headers from `index` on. -/
def checkEntries (loader : Loader) (image : Image) (ram : Ram) (table : Table) :
    (left index : Nat) → Except Fault Unit
  | 0, _ => .ok ()
  | left + 1, index => do
    let ph ← table.read image ram index
    if ph.isLoadable then loader.checkSegment image index ph
    checkEntries loader image ram table left (index + 1)

/-- Everything that a strict loader checks of an image whose header it has read. -/
def vet (loader : Loader) (image : Image) (ram : Ram) (header : Header) : Except Fault Unit := do
  header.checkIdent
  if !loader.width.reaches header.entry then
    throw (.beyondReach header.entry loader.width)
  if !image.contains header.tableOffset header.tableSize then
    throw (.image ⟨header.tableOffset, header.tableSize⟩)
  loader.checkEntries image ram header.table header.entryCount.toNat 0

/-! ## Placing segments -/

/-- The address that a segment is copied to. -/
def target (loader : Loader) (address : UInt64) : Except Fault UInt64 :=
  if loader.width.reaches address then .ok address
  else if loader.validation.isStrict then .error (.beyondReach address loader.width)
  else .ok (loader.width.truncate address)

/-- Where the zeros of a segment start that is copied to `target`. -/
def zeroStart (loader : Loader) (target : UInt64) (ph : ProgramHeader) : UInt64 :=
  loader.width.truncate (target + ph.fileSize)

/-- Asks memory for an access on behalf of a load. -/
def request (access : Request) : Action Fault Unit :=
  (Action.request access).mapError .memory

/-- Copies the bytes that the file holds of a segment. -/
def copyFile (image : Image) (target : UInt64) (ph : ProgramHeader) : Action Fault Unit := do
  if ph.fileSize ≠ 0 then
    let bytes ← Action.ofExcept (readRange image (← Action.ram) ph.offset ph.fileSize)
    request (.store target bytes)

/-- Zeroes what a segment takes up behind the bytes of the file. -/
def zeroRest (loader : Loader) (index : Nat) (target : UInt64) (ph : ProgramHeader) :
    Action Fault Unit := do
  if ph.zeroFill ≠ 0 then
    let start := loader.zeroStart target ph
    let count := hex ph.zeroFill.toNat
    let address := hex start.toNat
    note .trace s!"Segment {index}: zeroing {count} bytes at {address}"
    request (.clear start ph.zeroFill)

/-- The line that announces a segment. -/
def segmentMessage (index : Nat) (target : UInt64) (ph : ProgramHeader) : String :=
  let address := hex target.toNat
  let offset := hex ph.offset.toNat
  let fileSize := hex ph.fileSize.toNat
  let memorySize := hex ph.memorySize.toNat
  s!"Segment {index}: paddr={address} offset={offset} filesz={fileSize} memsz={memorySize} " ++
    s!"flags={ph.flags.text}"

/-- Places one loadable segment. -/
def placeSegment (loader : Loader) (image : Image) (index : Nat) (ph : ProgramHeader) :
    Action Fault Unit := do
  let target ← Action.ofExcept (loader.target ph.physicalAddress)
  note .debug (segmentMessage index target ph)
  copyFile image target ph
  loader.zeroRest index target ph

/-- Deals with one program header. -/
def placeEntry (loader : Loader) (image : Image) (index : Nat) (ph : ProgramHeader) :
    Action Fault Unit :=
  if ph.isLoadable then loader.placeSegment image index ph
  else
    let kind := hex ph.kind.toNat
    note .trace s!"Skipping program header {index} of type {kind}"

/-- Deals with `left` program headers from `index` on. -/
def placeEntries (loader : Loader) (image : Image) (table : Table) :
    (left index : Nat) → Action Fault Unit
  | 0, _ => pure ()
  | left + 1, index => do
    let ph ← Action.ofExcept (table.read image (← Action.ram) index)
    loader.placeEntry image index ph
    placeEntries loader image table left (index + 1)

/-- The line that announces a load. -/
def loadMessage (header : Header) (entry : Entry) : String :=
  let tableOffset := hex header.tableOffset.toNat
  s!"Loading {header.cls.text} image: entry={entry.text}, phoff={tableOffset}, " ++
    s!"phnum={header.entryCount.toNat}"

/-- Loads an image and returns where it starts. -/
def load (loader : Loader) (image : Image) : Action Fault Entry := do
  let header ← Action.ofExcept (Header.ofImage image (← Action.ram) loader.cls)
  let some entry := Entry.ofAddress? header.entry | throw .entryZero
  note .debug (loadMessage header entry)
  if loader.validation.isStrict then
    Action.ofExcept (loader.vet image (← Action.ram) header)
  loader.placeEntries image header.table header.entryCount.toNat 0
  return entry

end Loader

end Chainload.Elf
