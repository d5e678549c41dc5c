import Chainload.Proofs.FileContents
import Chainload.Proofs.TableWalk

/-!
# Calls for program headers

A walk is asked for program headers call by call, and memory may change between two calls
(`Walk.after`, `Walk.item?`). Call `k` gives the program header with the index `k`, whatever the
calls before it gave (`Walk.item?_start`), and what is left stays exact (`Walk.left_after_start`).

The offset of a program header is computed modulo `2 ^ 64`. If all program headers up to one can be
read, that one lies where it does without the modulus (`Table.end_le_size`). A load stops at the
first that cannot be read, so it never looks at one whose offset is cut down: a load that finds its
program headers in any other way there is the same load (`Loader.loadBy_eq_load`).
-/

namespace Chainload.Elf

/-! ## Where program headers lie -/

namespace Table

variable {table : Table} {image : Image} {ram : Ram} {index : Nat}

/-- A program header is read off the bytes at its offset if the image contains them. -/
theorem read_eq (table : Table) (image : Image) (ram : Ram) (index : Nat) :
    table.read image ram index =
      if (table.offsetOf index).toNat + table.cls.stride.toNat ≤ image.size then
        .ok (.decode table.cls (image.fetch ram (table.offsetOf index) table.cls.stride))
      else .error (.image ⟨table.offsetOf index, table.cls.stride⟩) := by
  simp only [read, readRange, Image.read, Image.contains, decide_eq_true_eq]
  split <;> rfl

/-- The offset of the program header is below `2 ^ 64`, so it is not cut down. -/
def Unwrapped (table : Table) (index : Nat) : Prop :=
  table.offset.toNat + index * table.cls.stride.toNat < UInt64.size

instance (table : Table) (index : Nat) : Decidable (table.Unwrapped index) :=
  inferInstanceAs (Decidable (_ < _))

theorem unwrapped_zero (table : Table) : table.Unwrapped 0 := by
  rw [Unwrapped, Nat.zero_mul]
  exact table.offset.toNat_lt

/-- A program header that can be read at its offset ends in the image. -/
theorem Unwrapped.end_le_size {ph : ProgramHeader} (h : table.Unwrapped index)
    (hread : table.read image ram index = .ok ph) :
    table.offset.toNat + (index + 1) * table.cls.stride.toNat ≤ image.size := by
  rw [read_eq, toNat_offsetOf_eq_mod, Nat.mod_eq_of_lt h] at hread
  split at hread
  case isTrue hinside => rwa [Nat.succ_mul, ← Nat.add_assoc]
  case isFalse => cases hread

theorem Unwrapped.succ {ph : ProgramHeader} (hsize : image.size < UInt64.size)
    (h : table.Unwrapped index) (hread : table.read image ram index = .ok ph) :
    table.Unwrapped (index + 1) :=
  Nat.lt_of_le_of_lt (h.end_le_size hread) hsize

/-- If all program headers up to one can be read, no offset among theirs was cut down. Memory may
change from one to the next. -/
theorem end_le_size (table : Table) (hsize : image.size < UInt64.size) (rams : Nat → Ram)
    (index : Nat) (hread : ∀ i ≤ index, ∃ ph, table.read image (rams i) i = .ok ph) :
    table.Unwrapped index ∧
      table.offset.toNat + (index + 1) * table.cls.stride.toNat ≤ image.size := by
  induction index with
  | zero =>
    obtain ⟨ph, hfirst⟩ := hread 0 (Nat.le_refl 0)
    exact ⟨table.unwrapped_zero, table.unwrapped_zero.end_le_size hfirst⟩
  | succ index ih =>
    have hbefore := (ih fun i hi => hread i (Nat.le_succ_of_le hi)).2
    have hunwrapped : table.Unwrapped (index + 1) := Nat.lt_of_le_of_lt hbefore hsize
    obtain ⟨ph, hlast⟩ := hread (index + 1) (Nat.le_refl _)
    exact ⟨hunwrapped, hunwrapped.end_le_size hlast⟩

end Table

/-! ## Call by call -/

namespace Table.Walk

variable {image : Image} {rams : Nat → Ram} {walk : Walk}

/-- The walk behind a number of calls, of which call `k` finds the RAM `rams k`. -/
def after (walk : Walk) (image : Image) (rams : Nat → Ram) : (calls : Nat) → Walk
  | 0 => walk
  | calls + 1 => ((walk.after image rams calls).next image (rams calls)).2

/-- What call `k` gives, the first one being call 0. -/
def item? (walk : Walk) (image : Image) (rams : Nat → Ram) (k : Nat) :
    Option (Except Fault ProgramHeader) :=
  ((walk.after image rams k).next image (rams k)).1

/-- Every call moves on by one program header, until none is left. -/
theorem after_eq_skip (h : walk.Within) (calls : Nat) :
    walk.after image rams calls = walk.skip (min calls walk.left) := by
  induction calls with
  | zero => rw [after, Nat.zero_min, skip_zero]
  | succ calls ih =>
    have hwithin := within_skip h (Nat.min_le_right calls walk.left)
    have hleft := left_skip h (Nat.min_le_right calls walk.left)
    rw [after, ih]
    by_cases hend : walk.left ≤ calls
    · rw [next_of_end hwithin (by omega), Nat.min_eq_right hend,
        Nat.min_eq_right (Nat.le_succ_of_le hend)]
    · have hmin : min (calls + 1) walk.left = min calls walk.left + 1 := by omega
      rw [next_of_left hwithin (by omega), hmin, ← skip_skip]

theorem item?_eq (h : walk.Within) (k : Nat) :
    walk.item? image rams k =
      if k < walk.left then some (walk.table.read image (rams k) (walk.index.toNat + k))
      else none := by
  have hwithin := within_skip h (Nat.min_le_right k walk.left)
  have hleft := left_skip h (Nat.min_le_right k walk.left)
  have hindex := toNat_index_skip h (Nat.min_le_right k walk.left)
  rw [item?, after_eq_skip h]
  split
  case isTrue hlt =>
    rw [next_of_left hwithin (by omega), hindex, Nat.min_eq_left (Nat.le_of_lt hlt)]
    rfl
  case isFalse hend => rw [next_of_end hwithin (by omega)]

theorem item?_start (table : Table) (k : Nat) :
    table.start.item? image rams k =
      if k < table.count.toNat then some (table.read image (rams k) k) else none := by
  rw [item?_eq (within_start table), left_start]
  show (if _ then some (table.read image (rams k) (0 + k)) else none) = _
  rw [Nat.zero_add]

theorem left_after_start (table : Table) (calls : Nat) :
    (table.start.after image rams calls).left =
      table.count.toNat - min calls table.count.toNat := by
  have hmin := Nat.min_le_right calls table.start.left
  rw [after_eq_skip (within_start table), left_skip (within_start table) hmin, left_start]

theorem toNat_index_after_start (table : Table) (calls : Nat) :
    (table.start.after image rams calls).index.toNat = min calls table.count.toNat := by
  have hmin := Nat.min_le_right calls table.start.left
  rw [after_eq_skip (within_start table), toNat_index_skip (within_start table) hmin, left_start]
  exact Nat.zero_add _

end Table.Walk

/-! ## Loads that find program headers in another way -/

/-- A way to find the program header with an index. `Table.read` is the one that loads use. -/
abbrev Reader := Table → Image → Ram → Nat → Except Fault ProgramHeader

/-- Wherever the offset of a program header is not cut down, it is found as `Table.read` finds
it. -/
def Reader.AgreesOn (image : Image) (find : Reader) : Prop :=
  ∀ (table : Table) (ram : Ram) (index : Nat), table.Unwrapped index →
    find table image ram index = table.read image ram index

namespace Loader

variable {image : Image} {find : Reader}

/-- `checkEntries` with another way to find program headers. -/
def checkEntriesBy (find : Reader) (loader : Loader) (image : Image) (ram : Ram) (table : Table) :
    (left index : Nat) → Except Fault Unit
  | 0, _ => .ok ()
  | left + 1, index => do
    let ph ← find table image ram index
    if ph.isLoadable then loader.checkSegment image index ph
    checkEntriesBy find loader image ram table left (index + 1)

/-- `vet` with another way to find program headers. -/
def vetBy (find : Reader) (loader : Loader) (image : Image) (ram : Ram) (header : Header) :
    Except Fault Unit := do
  header.checkIdent
  if !loader.width.reaches header.entry then
    throw (.beyondReach header.entry loader.width)
  if !image.contains header.tableOffset header.tableSize then
    throw (.image ⟨header.tableOffset, header.tableSize⟩)
  loader.checkEntriesBy find image ram header.table header.entryCount.toNat 0

/-- `placeEntries` with another way to find program headers. -/
def placeEntriesBy (find : Reader) (loader : Loader) (image : Image) (table : Table) :
    (left index : Nat) → Action Fault Unit
  | 0, _ => pure ()
  | left + 1, index => do
    let ph ← Action.ofExcept (find table image (← Action.ram) index)
    loader.placeEntry image index ph
    placeEntriesBy find loader image table left (index + 1)

/-- `load` with another way to find program headers. -/
def loadBy (find : Reader) (loader : Loader) (image : Image) : Action Fault Entry := do
  let header ← Action.ofExcept (Header.ofImage image (← Action.ram) loader.cls)
  let some entry := Entry.ofAddress? header.entry | throw .entryZero
  note .debug (loadMessage header entry)
  if loader.validation.isStrict then
    Action.ofExcept (loader.vetBy find image (← Action.ram) header)
  loader.placeEntriesBy find image header.table header.entryCount.toNat 0
  return entry

section Agreement

variable (hsize : image.size < UInt64.size) (hfind : find.AgreesOn image)
include hsize hfind

/-- A check stops at the first program header that cannot be read, so the offset of the next one is
not cut down. -/
theorem checkEntriesBy_eq (loader : Loader) (ram : Ram) (table : Table) :
    ∀ left index : Nat, table.Unwrapped index →
      loader.checkEntriesBy find image ram table left index =
        loader.checkEntries image ram table left index
  | 0, _, _ => rfl
  | left + 1, index, h => by
    rw [checkEntriesBy, checkEntries, hfind table ram index h]
    cases hread : table.read image ram index with
    | error fault => rfl
    | ok ph =>
      have ih := checkEntriesBy_eq loader ram table left (index + 1) (h.succ hsize hread)
      simp only [bind, Except.bind, ih]

theorem vetBy_eq (loader : Loader) (ram : Ram) (header : Header) :
    loader.vetBy find image ram header = loader.vet image ram header := by
  rw [vetBy, vet, checkEntriesBy_eq hsize hfind loader ram header.table _ 0
    header.table.unwrapped_zero]

/-- So does the load itself, though memory changes from one program header to the next. -/
theorem placeEntriesBy_eq (loader : Loader) (table : Table) :
    ∀ left index : Nat, table.Unwrapped index →
      loader.placeEntriesBy find image table left index =
        loader.placeEntries image table left index
  | 0, _, _ => rfl
  | left + 1, index, h => by
    funext machine
    rw [placeEntriesBy, placeEntries, Action.bind_apply, Action.bind_apply, Action.ram_apply]
    dsimp only
    rw [Action.bind_apply, Action.bind_apply, hfind table machine.memory.ram index h]
    cases hread : table.read image machine.memory.ram index with
    | error fault => rfl
    | ok ph =>
      have ih := placeEntriesBy_eq loader table left (index + 1) (h.succ hsize hread)
      rw [ih]

theorem loadBy_eq_load (loader : Loader) : loader.loadBy find image = loader.load image := by
  refine bind_congr fun ram => bind_congr fun header => ?_
  have hvet : loader.vetBy find image = loader.vet image :=
    funext fun ram => funext fun header => vetBy_eq hsize hfind loader ram header
  have hplace := placeEntriesBy_eq hsize hfind loader header.table header.entryCount.toNat 0
    header.table.unwrapped_zero
  cases Entry.ofAddress? header.entry with
  | none => rfl
  | some entry =>
    refine bind_congr fun _ => ?_
    rw [hvet, hplace]

end Agreement

end Loader

/-! ## Program headers of any header -/

/-- Whatever a header says, it gives as many program headers as it counts and then no more. Each is
that at its index, or the fault of the range it would take up. What is left is known at any time.
If all up to one can be read, they lie in the image one behind the other. A load is the same however
program headers are found whose offset is cut down. -/
theorem program_headers_by_index (header : Header) {image : Image}
    (hsize : image.size < UInt64.size) :
    (∀ k, (header.table.offsetOf k).toNat =
      (header.tableOffset.toNat + k * header.cls.stride.toNat) % UInt64.size) ∧
    (∀ (rams : Nat → Ram) (k : Nat),
      header.table.start.item? image rams k =
          (if k < header.entryCount.toNat then
            some (if (header.table.offsetOf k).toNat + header.cls.stride.toNat ≤ image.size then
              .ok (.decode header.cls
                (image.fetch (rams k) (header.table.offsetOf k) header.cls.stride))
            else .error (.image ⟨header.table.offsetOf k, header.cls.stride⟩))
          else none) ∧
        (header.table.start.after image rams k).left =
          header.entryCount.toNat - min k header.entryCount.toNat ∧
        (header.table.start.after image rams k).index.toNat = min k header.entryCount.toNat ∧
        ((∀ i ≤ k, ∃ ph, header.table.start.item? image rams i = some (.ok ph)) →
          header.tableOffset.toNat + (k + 1) * header.cls.stride.toNat ≤ image.size)) ∧
    ∀ find : Reader, find.AgreesOn image →
      ∀ loader : Loader, loader.loadBy find image = loader.load image := by
  refine ⟨header.table.toNat_offsetOf_eq_mod, fun rams k => ⟨?_, ?_, ?_, fun hitems => ?_⟩,
    fun find hfind loader => loader.loadBy_eq_load hsize hfind⟩
  · rw [Table.Walk.item?_start, Table.read_eq]
    rfl
  · exact Table.Walk.left_after_start header.table k
  · exact Table.Walk.toNat_index_after_start header.table k
  · refine (header.table.end_le_size hsize rams k fun i hi => ?_).2
    obtain ⟨ph, hitem⟩ := hitems i hi
    rw [Table.Walk.item?_start] at hitem
    split at hitem
    case isTrue => exact ⟨ph, Option.some.inj hitem⟩
    case isFalse => cases hitem

/-- The second program header of this file lies at its start modulo `2 ^ 64`. -/
def wrapping : Header where
  cls := .elf64
  classByte := 2
  dataByte := littleEndian
  machine := 62
  entry := 0x1000
  tableOffset := 0xFFFF_FFFF_FFFF_FFC8
  entrySize := 56
  entryCount := 2

/-- Finds no program header at an offset that is cut down. -/
def Reader.careful : Reader := fun table image ram index =>
  if table.Unwrapped index then table.read image ram index else .error .notElf

/-- The walk reads the second program header though it cannot read the first. The load does not: it
ends with the first. -/
theorem program_headers_by_index_wrapping :
    (Image.file wrapping.encode).size < UInt64.size ∧
      Reader.AgreesOn (.file wrapping.encode) .careful ∧
      ∀ rams : Nat → Ram,
        wrapping.table.start.item? (.file wrapping.encode) rams 0 =
          some (.error (.image ⟨0xFFFF_FFFF_FFFF_FFC8, 56⟩)) ∧
        wrapping.table.start.item? (.file wrapping.encode) rams 1 =
          some (.ok (.decode .elf64 (wrapping.encode.take 56))) ∧
        wrapping.table.start.item? (.file wrapping.encode) rams 2 = none ∧
        Loader.inLongMode.loadBy .careful (.file wrapping.encode) =
          Loader.inLongMode.load (.file wrapping.encode) ∧
        ∃ left, Loader.inLongMode.load (.file wrapping.encode) (.ofMemory ⟨.window, rams 0⟩) =
          .error (.image ⟨0xFFFF_FFFF_FFFF_FFC8, 56⟩) left := by
  have hsize : (Image.file wrapping.encode).size < UInt64.size := by decide +kernel
  have hagrees : Reader.AgreesOn (.file wrapping.encode) .careful :=
    fun _ _ _ h => if_pos h
  obtain ⟨-, hitems, hloads⟩ := program_headers_by_index wrapping hsize
  refine ⟨hsize, hagrees, fun rams => ⟨?_, ?_, ?_, hloads _ hagrees _, _, rfl⟩⟩
  · rw [(hitems rams 0).1]
    rfl
  · rw [(hitems rams 1).1]
    rfl
  · rw [(hitems rams 2).1]
    rfl

end Chainload.Elf
