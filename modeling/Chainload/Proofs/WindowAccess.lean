import Chainload.Proofs.PlainMemory

/-!
# Histories of a window

Memory behind a window is asked for one access after the other (`Memory.askAll`). What it does
with the next one depends on the place of the window and on the bytes that it holds by then.

The window refuses an access if one of its spans is not within the window, and reports the first
such span (`Memory.perform_eq_error_iff`). An access that it grants leaves the bytes of the access
where they go and every other byte as it was (`Memory.Granted.overwritten`). A granted access does
not move the window, so no history does (`Memory.sameShape_askAll`), and
`window_history` says what holds after each.

Whether a range is within the window is a question about numbers, and a machine answers it with
words: it subtracts the base, adds the length, and gives up when a result is not a word
(`Ram.offset?`, and `Image.part?` for reads of an image). It gives up too early only if it could not
count the bytes of the window (`Ram.offset?_eq`, `Image.part?_eq`).
-/

namespace Chainload

open Elf

/-! ## Spans and ranges -/

/-- The span starts and ends within the other one, also if it is empty. -/
def Elf.Span.Within (s t : Span) : Prop :=
  t.start ≤ s.start ∧ s.start + s.len ≤ t.start + t.len

instance (s t : Span) : Decidable (s.Within t) :=
  inferInstanceAs (Decidable (_ ∧ _))

/-- The span as memory reports it. -/
def Elf.Span.range (span : Span) : OutOfRange :=
  ⟨UInt64.ofNat span.start, UInt64.ofNat span.len⟩

/-- The bytes that an access leaves at the addresses that it writes. Those of a move are the ones
that its source held. -/
def Request.patch (ram : Ram) : Request → Nat → Option UInt8
  | .store target bytes, a => bytes.at? target.toNat a
  | .clear target len, a => if (Span.mk target.toNat len.toNat).Holds a then some 0 else none
  | .move target source len, a =>
    if (Span.mk target.toNat len.toNat).Holds a then
      ram.byte? (source.toNat + (a - target.toNat)) else none
  | .view .., _ => none

/-! ## Machine arithmetic -/

/-- Where a range starts among the bytes and how many it has, in words of a machine, if the RAM
covers it. -/
def Ram.offset? (machine : Width) (ram : Ram) (address len : UInt64) : Option (Nat × Nat) :=
  if ram.base ≤ address then machine.range? (address - ram.base).toNat len.toNat ram.size
  else none

theorem Ram.offset?_eq {machine : Width} {ram : Ram} (h : ram.size ≤ machine.highest.toNat)
    (address len : UInt64) :
    ram.offset? machine address len =
      if ram.covers address.toNat len.toNat then
        some (address.toNat - ram.base.toNat, len.toNat) else none := by
  unfold offset?
  split
  case isTrue hbase =>
    have hlow := UInt64.le_iff_toNat_le.mp hbase
    rw [Width.range?_eq h, UInt64.toNat_sub_of_le _ _ hbase]
    refine if_congr ?_ rfl rfl
    rw [covers_iff]
    omega
  case isFalse hbase =>
    refine (if_neg fun hcovers => hbase ?_).symm
    exact UInt64.le_iff_toNat_le.mpr (covers_iff.mp hcovers).1

namespace Image

variable {image : Image}

/-- Whether an image contains a range, if the end of the range has to be a 64-bit word. -/
def checks (image : Image) (offset len : UInt64) : Bool :=
  (Width.bits64.word? (offset.toNat + len.toNat)).any (· ≤ image.size)

theorem checks_eq_contains (h : image.size ≤ Width.bits64.highest.toNat) (offset len : UInt64) :
    image.checks offset len = image.contains offset len := by
  unfold checks contains Width.word?
  split
  case isTrue => rfl
  case isFalse hbeyond => exact (decide_eq_false (by omega)).symm

/-- Where a range starts in an image and how many bytes it has, in words of a machine, if the image
contains it. -/
def part? (machine : Width) (image : Image) (offset len : UInt64) : Option (Nat × Nat) :=
  match image with
  | .file bytes => machine.range? offset.toNat len.toNat bytes.length
  | .view address size =>
    if (Image.view address size).checks offset len then do
      let start ← machine.word? offset.toNat
      let count ← machine.word? len.toNat
      return (start, count)
    else none

theorem part?_eq {machine : Width} (h : image.size ≤ machine.highest.toNat)
    (offset len : UInt64) :
    image.part? machine offset len =
      if image.contains offset len then some (offset.toNat, len.toNat) else none := by
  cases image with
  | file bytes =>
    exact (Width.range?_eq h offset.toNat len.toNat).trans (if_congr contains_iff.symm rfl rfl)
  | view address count =>
    have hword : (Image.view address count).size ≤ Width.bits64.highest.toNat :=
      Nat.le_of_lt_succ count.toNat_lt
    have hcount : count.toNat ≤ machine.highest.toNat := h
    rw [part?, checks_eq_contains hword, Width.word?_bind, Width.word?_bind]
    refine ite_congr rfl (fun hcontains => ?_) fun _ => rfl
    have hinside : offset.toNat + len.toNat ≤ count.toNat := contains_iff.mp hcontains
    rw [if_pos (by omega), if_pos (by omega)]
    rfl

end Image

namespace Memory

variable {memory after : Memory} {access : Request} {range : OutOfRange}

/-- The addresses of the RAM. -/
def place (memory : Memory) : Span :=
  ⟨memory.ram.base.toNat, memory.ram.size⟩

theorem within_place_iff {span : Span} :
    span.Within memory.place ↔ memory.ram.covers span.start span.len = true :=
  Ram.covers_iff.symm

theorem SameShape.place_eq (h : SameShape memory after) : after.place = memory.place := by
  rw [place, place, h.base, h.size]

/-! ## One access -/

/-- An access is refused for the first of its spans that is not within the window. -/
theorem perform_eq_error_iff (hwindow : memory.mapping = .window) :
    memory.perform access = .error range ↔
      ∃ span, access.spans.find? (fun span => ¬span.Within memory.place) = some span ∧
        range = span.range := by
  simp only [within_place_iff]
  cases access with
  | store target bytes =>
    rw [perform_store hwindow]
    cases h : memory.ram.covers target.toNat bytes.length with
    | true => simp [Request.spans, h]
    | false => simpa [Request.spans, Span.range, h] using eq_comm
  | clear target len =>
    rw [perform_clear hwindow]
    cases h : memory.ram.covers target.toNat len.toNat with
    | true => simp [Request.spans, h]
    | false => simpa [Request.spans, Span.range, h] using eq_comm
  | move target source len =>
    rw [perform_move hwindow]
    cases h : memory.ram.covers target.toNat len.toNat with
    | true =>
      cases h' : memory.ram.covers source.toNat len.toNat with
      | true => simp [Request.spans, h, h']
      | false => simpa [Request.spans, Span.range, h, h'] using eq_comm
    | false => simpa [Request.spans, Span.range, h] using eq_comm
  | view address len =>
    rw [perform_view hwindow]
    cases h : memory.ram.covers address.toNat len.toNat with
    | true => simp [Request.spans, h]
    | false => simpa [Request.spans, Span.range, h] using eq_comm

theorem exists_perform_iff (hwindow : memory.mapping = .window) :
    (∃ after, memory.perform access = .ok after) ↔
      ∀ span ∈ access.spans, span.Within memory.place := by
  constructor
  · rintro ⟨after, h⟩ span hmem
    exact within_place_iff.mpr ((granted_of_perform hwindow h).covers span hmem)
  · intro hwithin
    cases h : memory.perform access with
    | ok after => exact ⟨after, rfl⟩
    | error range =>
      obtain ⟨span, hfind, -⟩ := (perform_eq_error_iff hwindow).mp h
      have houtside := List.find?_some hfind
      exact absurd (hwithin span (List.mem_of_find?_eq_some hfind)) (of_decide_eq_true houtside)

/-- What was read of a covered source goes to the target byte by byte. -/
theorem at?_read {ram : Ram} {source len : Nat} (target : Nat)
    (h : ram.covers source len = true) (a : Nat) :
    Bytes.at? target (ram.read source len) a =
      if (Span.mk target len).Holds a then ram.byte? (source + (a - target)) else none := by
  refine Bytes.at?_eq_ite (f := fun i => ram.byte? (source + i)) (fun i => ?_) target a
  rw [Ram.getElem?_read]
  split
  case isTrue hi =>
    obtain ⟨b, hb⟩ := Ram.byte?_of_covers h hi
    rw [hb, Option.getD_some]
  case isFalse => rfl

/-- A granted access leaves its bytes and keeps all others. -/
theorem Granted.overwritten (h : Granted memory access after) :
    Overwritten memory (access.patch memory.ram) after := by
  cases h with
  | store hcovers => exact .write hcovers
  | clear hcovers =>
    refine (Overwritten.write (by rwa [Bytes.length_zeros])).congr fun a => ?_
    exact Bytes.at?_zeros ..
  | move htarget hsource =>
    refine (Overwritten.write (by rwa [Ram.length_read])).congr fun a => ?_
    exact at?_read _ hsource a
  | view => exact .refl memory

/-! ## Histories -/

/-- Memory after it was asked for an access. A refused access leaves it as it is. -/
def ask (memory : Memory) (access : Request) : Memory :=
  match memory.perform access with
  | .ok after => after
  | .error _ => memory

/-- Memory after it was asked for accesses one after the other. -/
def askAll (memory : Memory) (accesses : List Request) : Memory :=
  accesses.foldl ask memory

theorem ask_of_ok (h : memory.perform access = .ok after) : memory.ask access = after := by
  rw [ask, h]

theorem ask_of_error (h : memory.perform access = .error range) :
    memory.ask access = memory := by
  rw [ask, h]

theorem sameShape_ask (hwindow : memory.mapping = .window) (access : Request) :
    SameShape memory (memory.ask access) := by
  cases h : memory.perform access with
  | ok after =>
    rw [ask_of_ok h]
    exact (granted_of_perform hwindow h).sameShape
  | error range =>
    rw [ask_of_error h]
    exact .refl memory

/-- No history moves a window. -/
theorem sameShape_askAll : ∀ {accesses : List Request} {memory : Memory},
    memory.mapping = .window → SameShape memory (memory.askAll accesses)
  | [], memory, _ => .refl memory
  | access :: rest, memory, hwindow => by
    have hfirst := sameShape_ask hwindow access
    have hrest : SameShape (memory.ask access) ((memory.ask access).askAll rest) :=
      sameShape_askAll (hfirst.window hwindow)
    exact hfirst.trans hrest

/-! ## What holds after a history -/

/-- What memory behind a window does with the next access. -/
structure Guards (window : Span) (memory : Memory) (access : Request) : Prop where
  /-- It grants the access if every span is within the window. -/
  granted : (∃ after, memory.perform access = .ok after) ↔
    ∀ span ∈ access.spans, span.Within window
  /-- It reports the first span that is not. -/
  refused : ∀ range, memory.perform access = .error range ↔
    ∃ span, access.spans.find? (fun span => ¬span.Within window) = some span ∧
      range = span.range
  /-- A refused access changes nothing. -/
  kept : ∀ range, memory.perform access = .error range → memory.ask access = memory
  /-- A granted one leaves its bytes and changes no others. -/
  written : ∀ after, memory.perform access = .ok after →
    memory.ask access = after ∧ Overwritten memory (access.patch memory.ram) after

/-- How memory behind a window shows the bytes of a range. -/
structure Exposes (window : Span) (memory : Memory) (address len : UInt64) : Prop where
  /-- The bytes are there if the range is within the window. -/
  bytes : (∃ content, memory.bytes? address len = some content) ↔
    Span.Within ⟨address.toNat, len.toNat⟩ window
  /-- So is a view of them. -/
  view : (∃ after, memory.perform (.view address len) = .ok after) ↔
    Span.Within ⟨address.toNat, len.toNat⟩ window
  /-- They are those that memory holds. -/
  content : ∀ content, memory.bytes? address len = some content →
    content.length = len.toNat ∧ memory.ram.HoldsAt address.toNat content
  /-- The view reads what is in its range. -/
  reads : ∀ offset count, (∃ content, (Image.view address len).read memory.ram offset count =
    .ok content) ↔ offset.toNat + count.toNat ≤ len.toNat
  /-- What it reads is what memory holds there. -/
  readContent : Span.Within ⟨address.toNat, len.toNat⟩ window → ∀ offset count content,
    (Image.view address len).read memory.ram offset count = .ok content →
      content.length = count.toNat ∧
        memory.ram.HoldsAt (address.toNat + offset.toNat) content

/-- What the checks of a machine come to, behind a window whose bytes it can count. -/
structure ChecksLike (window : Span) (memory : Memory) (machine : Width) : Prop where
  /-- A range has a place among the bytes if it is within the window. -/
  offset : ∀ address len, memory.ram.offset? machine address len =
    if Span.Within ⟨address.toNat, len.toNat⟩ window then
      some (address.toNat - window.start, len.toNat) else none
  /-- A range of a view has a place in it if it ends within the view. -/
  part : ∀ address len, Span.Within ⟨address.toNat, len.toNat⟩ window → ∀ offset count,
    (Image.view address len).part? machine offset count =
      if offset.toNat + count.toNat ≤ len.toNat then some (offset.toNat, count.toNat) else none

theorem guards (hwindow : memory.mapping = .window) (access : Request) :
    memory.Guards memory.place access where
  granted := exists_perform_iff hwindow
  refused _ := perform_eq_error_iff hwindow
  kept _ := ask_of_error
  written _ h := ⟨ask_of_ok h, (granted_of_perform hwindow h).overwritten⟩

theorem read_view_eq_ok_iff {ram : Ram} {address len offset count : UInt64} {content : Bytes} :
    (Image.view address len).read ram offset count = .ok content ↔
      offset.toNat + count.toNat ≤ len.toNat ∧
        ram.read (address.toNat + offset.toNat) count.toNat = content := by
  unfold Image.read
  split
  case isTrue h => exact ⟨fun hread => ⟨Image.contains_iff.mp h, Except.ok.inj hread⟩,
    fun hread => congrArg Except.ok hread.2⟩
  case isFalse h => exact iff_of_false (nomatch ·) fun hread => h (Image.contains_iff.mpr hread.1)

theorem exposes (hwindow : memory.mapping = .window) (address len : UInt64) :
    memory.Exposes memory.place address len where
  bytes := by
    rw [within_place_iff]
    constructor
    · rintro ⟨content, h⟩
      exact (Ram.read?_eq_some_iff.mp h).1
    · intro h
      exact ⟨_, if_pos h⟩
  view := by
    rw [exists_perform_iff hwindow]
    exact List.forall_mem_singleton
  content content h := (Ram.read?_eq_some_iff.mp h).2
  reads offset count := by
    constructor
    · rintro ⟨content, h⟩
      exact (read_view_eq_ok_iff.mp h).1
    · intro h
      exact ⟨_, read_view_eq_ok_iff.mpr ⟨h, rfl⟩⟩
  readContent hwithin offset count content h := by
    obtain ⟨hinside, rfl⟩ := read_view_eq_ok_iff.mp h
    obtain ⟨hlow, hhigh⟩ := hwithin
    have hcovers : memory.ram.covers (address.toNat + offset.toNat) count.toNat = true :=
      Ram.covers_iff.mpr ⟨Nat.le_trans hlow (Nat.le_add_right _ _), by
        simp only [place] at hhigh
        omega⟩
    exact ⟨Ram.length_read .., Ram.holdsAt_read hcovers⟩

theorem checksLike {machine : Width} (h : memory.ram.size ≤ machine.highest.toNat) :
    memory.ChecksLike memory.place machine where
  offset address len := by
    have hplace : Span.Within ⟨address.toNat, len.toNat⟩ memory.place ↔ _ := within_place_iff
    rw [Ram.offset?_eq h]
    exact if_congr hplace.symm rfl rfl
  part address len hwithin offset count := by
    have hview : (Image.view address len).size ≤ machine.highest.toNat := by
      obtain ⟨hlow, hhigh⟩ := hwithin
      simp only [place] at hlow hhigh
      simp only [Image.size]
      omega
    rw [Image.part?_eq hview]
    exact if_congr Image.contains_iff rfl rfl

/-- Whatever a window was asked for, it stays where it is. It grants the next access exactly if
every span is within the window, and what it grants leaves its bytes and changes no others;
otherwise it reports the first span that is not, and changes nothing. The bytes of a range, a view
of it and reads of the view are there for the same ranges and are those that memory holds. A
machine that can count the bytes finds all this out without an overflow. -/
theorem window_history (base : UInt64) (bytes : Bytes) (accesses : List Request) :
    let memory := askAll ⟨.window, ⟨base, bytes⟩⟩ accesses
    (∀ access, memory.Guards ⟨base.toNat, bytes.length⟩ access) ∧
      (∀ address len, memory.Exposes ⟨base.toNat, bytes.length⟩ address len) ∧
      ∀ machine : Width, bytes.length ≤ machine.highest.toNat →
        memory.ChecksLike ⟨base.toNat, bytes.length⟩ machine := by
  intro memory
  have hshape : SameShape ⟨.window, ⟨base, bytes⟩⟩ memory := sameShape_askAll rfl
  have hwindow : memory.mapping = .window := hshape.mapping
  have hplace : memory.place = ⟨base.toNat, bytes.length⟩ := hshape.place_eq
  rw [← hplace]
  refine ⟨memory.guards hwindow, memory.exposes hwindow, fun machine hsize => checksLike ?_⟩
  rwa [hshape.size]

/-- The ranges of a move may overlap. A window may reach beyond `2 ^ 64`, where no address does. -/
example :
    perform ⟨.window, ⟨0, [1, 2, 3, 4, 5, 6, 7, 8]⟩⟩ (.move 2 0 4) =
      .ok ⟨.window, ⟨0, [1, 2, 1, 2, 3, 4, 7, 8]⟩⟩ ∧
    perform ⟨.window, ⟨0xFFFF_FFFF_FFFF_FFFE, [1, 2, 3, 4]⟩⟩ (.clear 0xFFFF_FFFF_FFFF_FFFF 3) =
      .ok ⟨.window, ⟨0xFFFF_FFFF_FFFF_FFFE, [1, 0, 0, 0]⟩⟩ := by
  decide

end Memory

end Chainload
