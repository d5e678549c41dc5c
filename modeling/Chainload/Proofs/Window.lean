import Chainload.Elf.Footprint
import Chainload.Memory

/-!
# Memory behind a window

What accesses do to memory that is reached through a window, byte by byte.

* `Memory.perform_store`, `perform_clear`, `perform_move`, `perform_view` : a window
  grants an access exactly when the RAM covers its ranges.
* `Memory.Overwritten before patch after` : `after` holds the bytes of `patch` and where there are
  none those of `before`. A store and a clear are instances, and one after the other compose
  (`Overwritten.trans`).
* `Memory.KeepsOutside S before after` : every byte outside `S` is as it was. This is the frame of
  an access that may have been refused.

Both relations keep the way in which memory is reached and the place of the RAM (`SameShape`), so
what a window grants before, it grants after.
-/

namespace Chainload

open Elf

theorem Elf.Span.not_holds_of_empty {span : Span} (h : span.len = 0) (a : Nat) :
    ¬span.Holds a := by
  rintro ⟨hlow, hhigh⟩
  omega

/-! ## Bytes of RAM -/

namespace Bytes

/-- The byte that the bytes spell at an address when they start at another. -/
def at? (start : Nat) (bytes : Bytes) (a : Nat) : Option UInt8 :=
  if start ≤ a then bytes[a - start]? else none

theorem at?_eq_none_iff {start a : Nat} {bytes : Bytes} :
    at? start bytes a = none ↔ ¬(start ≤ a ∧ a < start + bytes.length) := by
  unfold at?
  split
  · rw [List.getElem?_eq_none_iff]
    omega
  · simp only [true_iff]
    omega

theorem getElem?_slice (bytes : Bytes) (offset len i : Nat) :
    (bytes.slice offset len)[i]? = if i < len then bytes[offset + i]? else none := by
  unfold slice
  by_cases h : i < len
  · rw [if_pos h, List.getElem?_take_of_lt h, List.getElem?_drop]
  · rw [if_neg h]
    exact List.getElem?_eq_none (by simp only [List.length_take]; omega)

/-- Bytes that are known by their index are known by their address. -/
theorem at?_eq_ite {bytes : Bytes} {f : Nat → Option UInt8} {len : Nat}
    (h : ∀ i, bytes[i]? = if i < len then f i else none) (start a : Nat) :
    at? start bytes a = if (Span.mk start len).Holds a then f (a - start) else none := by
  unfold at?
  by_cases hlow : start ≤ a
  · rw [if_pos hlow, h]
    by_cases hhigh : a - start < len
    · have hin : (Span.mk start len).Holds a := ⟨hlow, (Nat.sub_lt_iff_lt_add' hlow).mp hhigh⟩
      rw [if_pos hhigh, if_pos hin]
    · have hout : ¬(Span.mk start len).Holds a := fun ha =>
        hhigh ((Nat.sub_lt_iff_lt_add' hlow).mpr ha.2)
      rw [if_neg hhigh, if_neg hout]
  · have hout : ¬(Span.mk start len).Holds a := fun ha => hlow ha.1
    rw [if_neg hlow, if_neg hout]

theorem at?_zeros (start len a : Nat) :
    at? start (zeros len) a = if (Span.mk start len).Holds a then some 0 else none :=
  at?_eq_ite (fun _ => List.getElem?_replicate) start a

theorem at?_slice (start : Nat) (bytes : Bytes) (offset len a : Nat) :
    at? start (bytes.slice offset len) a =
      if (Span.mk start len).Holds a then bytes[offset + (a - start)]? else none :=
  at?_eq_ite (getElem?_slice bytes offset len) start a

theorem at?_append (start : Nat) (front back : Bytes) (a : Nat) :
    at? start (front ++ back) a =
      (at? (start + front.length) back a).or (at? start front a) := by
  unfold at?
  by_cases hlow : start ≤ a
  · rw [if_pos hlow, if_pos hlow]
    by_cases hhigh : start + front.length ≤ a
    · rw [if_pos hhigh, List.getElem?_append_right (by omega),
        List.getElem?_eq_none (show front.length ≤ a - start by omega), Option.or_none,
        Nat.sub_sub]
    · rw [if_neg hhigh, List.getElem?_append_left (by omega), Option.none_or]
  · rw [if_neg hlow, if_neg hlow, if_neg (by omega), Option.none_or]

end Bytes

namespace Ram

@[simp] theorem length_read (ram : Ram) (address len : Nat) :
    (ram.read address len).length = len := by
  simp only [read, List.length_append, Bytes.length_zeros, Bytes.slice, List.length_take,
    List.length_drop]
  omega

theorem byte?_eq_none_iff {ram : Ram} {a : Nat} :
    ram.byte? a = none ↔ ¬(ram.base.toNat ≤ a ∧ a < ram.base.toNat + ram.size) := by
  unfold byte? size
  split
  · rw [List.getElem?_eq_none_iff]
    omega
  · simp only [true_iff]
    omega

theorem byte?_base_add (ram : Ram) (i : Nat) :
    ram.byte? (ram.base.toNat + i) = ram.bytes[i]? := by
  rw [byte?, if_pos (Nat.le_add_right _ _), Nat.add_sub_cancel_left]

/-- A read finds the byte of every address, or zero where there is no RAM. -/
theorem getElem?_read (ram : Ram) (address len i : Nat) :
    (ram.read address len)[i]? =
      if i < len then some ((ram.byte? (address + i)).getD 0) else none := by
  by_cases hi : i < len
  case neg => rw [if_neg hi, List.getElem?_eq_none (by rw [length_read]; omega)]
  rw [if_pos hi]
  unfold read Bytes.zeros
  by_cases hbelow : i < min len (ram.base.toNat - address)
  · have hnone : ram.byte? (address + i) = none := byte?_eq_none_iff.mpr (by omega)
    rw [List.append_assoc, List.getElem?_append_left (by rwa [List.length_replicate]),
      List.getElem?_replicate, if_pos hbelow, hnone, Option.getD_none]
  rw [List.append_assoc, List.getElem?_append_right (by rw [List.length_replicate]; omega),
    List.length_replicate]
  have hoffset : address - ram.base.toNat + (i - min len (ram.base.toNat - address)) =
      address + i - ram.base.toNat := by omega
  by_cases hfound : i - min len (ram.base.toNat - address) <
      (ram.bytes.slice (address - ram.base.toNat)
        (len - min len (ram.base.toNat - address))).length
  · rw [List.getElem?_append_left hfound, Bytes.getElem?_slice, if_pos (by omega), hoffset, byte?,
      if_pos (by omega)]
    simp only [Bytes.slice, List.length_take, List.length_drop] at hfound
    rw [List.getElem?_eq_getElem (by omega), Option.getD_some]
  · rw [List.getElem?_append_right (by omega), List.getElem?_replicate]
    simp only [Bytes.slice, List.length_take, List.length_drop] at hfound ⊢
    have hnone : ram.byte? (address + i) = none :=
      byte?_eq_none_iff.mpr (by unfold size; omega)
    rw [if_pos (by omega), hnone, Option.getD_none]

theorem covers_congr {ram ram' : Ram} (hbase : ram'.base = ram.base) (hsize : ram'.size = ram.size)
    (address len : Nat) : ram'.covers address len = ram.covers address len := by
  unfold covers
  rw [hbase, hsize]

/-- Two reads of a range agree if the bytes at all its addresses do. -/
theorem read_congr {ram ram' : Ram} {address len : Nat}
    (h : ∀ a, (Span.mk address len).Holds a → ram'.byte? a = ram.byte? a) :
    ram'.read address len = ram.read address len := by
  apply List.ext_getElem?
  intro i
  rw [getElem?_read, getElem?_read]
  split
  case isTrue hi => rw [h _ ⟨Nat.le_add_right address i, Nat.add_lt_add_left hi address⟩]
  case isFalse => rfl

/-- A part of a read is the read of that part. -/
theorem slice_read {address len offset count : Nat} (ram : Ram) (h : offset + count ≤ len) :
    (ram.read address len).slice offset count = ram.read (address + offset) count := by
  apply List.ext_getElem?
  intro i
  rw [Bytes.getElem?_slice, getElem?_read, getElem?_read]
  split
  case isTrue hi => rw [if_pos (by omega), Nat.add_assoc]
  case isFalse => rfl

/-- The bytes lie in the RAM one behind the other, the first one at the address. -/
def HoldsAt (ram : Ram) (address : Nat) (bytes : Bytes) : Prop :=
  ∀ i b, bytes[i]? = some b → ram.byte? (address + i) = some b

theorem byte?_of_covers {ram : Ram} {address len i : Nat} (h : ram.covers address len = true)
    (hi : i < len) : ∃ b, ram.byte? (address + i) = some b := by
  obtain ⟨hlow, hhigh⟩ := covers_iff.mp h
  refine Option.ne_none_iff_exists'.mp fun hnone => ?_
  exact byte?_eq_none_iff.mp hnone ⟨by omega, by omega⟩

/-- What is read of a range that the RAM covers lies in the RAM. -/
theorem holdsAt_read {ram : Ram} {address len : Nat} (h : ram.covers address len = true) :
    ram.HoldsAt address (ram.read address len) := by
  intro i b hb
  rw [getElem?_read] at hb
  split at hb
  case isTrue hi =>
    obtain ⟨b', hb'⟩ := byte?_of_covers h hi
    rw [hb', Option.getD_some] at hb
    rw [hb', hb]
  case isFalse => cases hb

/-- At an address lies no more than one sequence of bytes of each length. -/
theorem HoldsAt.unique {ram : Ram} {address : Nat} {bytes bytes' : Bytes}
    (h : ram.HoldsAt address bytes) (h' : ram.HoldsAt address bytes')
    (hlen : bytes.length = bytes'.length) : bytes = bytes' := by
  apply List.ext_getElem?
  intro i
  by_cases hi : i < bytes.length
  · have hbyte := h i _ (List.getElem?_eq_getElem hi)
    have hbyte' := h' i _ (List.getElem?_eq_getElem (hlen ▸ hi))
    rw [List.getElem?_eq_getElem hi, List.getElem?_eq_getElem (hlen ▸ hi), ← hbyte, ← hbyte']
  · rw [List.getElem?_eq_none (by omega), List.getElem?_eq_none (by omega)]

/-- RAM that agrees at every address of the bytes holds them as well. -/
theorem HoldsAt.congr {ram ram' : Ram} {address : Nat} {bytes : Bytes}
    (h : ram.HoldsAt address bytes)
    (hagree : ∀ a, (Span.mk address bytes.length).Holds a → ram'.byte? a = ram.byte? a) :
    ram'.HoldsAt address bytes := by
  intro i b hb
  obtain ⟨hi, -⟩ := List.getElem?_eq_some_iff.mp hb
  rw [hagree _ ⟨Nat.le_add_right address i, Nat.add_lt_add_left hi address⟩, h i b hb]

/-- The bytes of a range are read if the RAM covers it and holds them there. -/
theorem read?_eq_some_iff {ram : Ram} {address len : Nat} {bytes : Bytes} :
    ram.read? address len = some bytes ↔
      ram.covers address len = true ∧ bytes.length = len ∧ ram.HoldsAt address bytes := by
  unfold read?
  split
  case isTrue h =>
    rw [Option.some_inj]
    constructor
    · rintro rfl
      exact ⟨h, length_read .., holdsAt_read h⟩
    · rintro ⟨-, hlen, hholds⟩
      exact (holdsAt_read h).unique hholds ((length_read ..).trans hlen.symm)
  case isFalse h => exact iff_of_false (nomatch ·) fun hread => h hread.1

/-- What was written is read back. -/
theorem read_write_self {ram : Ram} {address : Nat} {patch : Bytes}
    (h : ram.covers address patch.length = true) :
    (ram.write address patch).read address patch.length = patch := by
  apply List.ext_getElem?
  intro i
  rw [getElem?_read]
  split
  case isTrue hi =>
    have hin : address ≤ address + i ∧ address + i < address + patch.length :=
      ⟨Nat.le_add_right _ _, Nat.add_lt_add_left hi _⟩
    rw [byte?_write h, if_pos hin, Nat.add_sub_cancel_left, List.getElem?_eq_getElem hi,
      Option.getD_some]
  case isFalse hi => rw [List.getElem?_eq_none (Nat.le_of_not_lt hi)]

end Ram

namespace Memory

/-! ## What a window grants -/

section Window

variable {memory : Memory} (hwindow : memory.mapping = .window)
include hwindow

theorem admits_window (address : UInt64) (len : Nat) :
    memory.admits address len = memory.ram.covers address.toNat len := by
  simp only [admits, hwindow]

theorem passesOver_window (len : Nat) : memory.passesOver len = false := by
  simp [passesOver, hwindow]

theorem refusal?_window (address : UInt64) (len : Nat) :
    memory.refusal? address len =
      if memory.ram.covers address.toNat len then none else some ⟨address, UInt64.ofNat len⟩ := by
  unfold refusal?
  rw [admits_window hwindow]

theorem perform_store (target : UInt64) (bytes : Bytes) :
    memory.perform (.store target bytes) =
      if memory.ram.covers target.toNat bytes.length then .ok (memory.write target bytes)
      else .error ⟨target, UInt64.ofNat bytes.length⟩ := by
  simp only [perform, store, passesOver_window hwindow, refusal?_window hwindow]
  cases memory.ram.covers target.toNat bytes.length <;> rfl

theorem perform_clear (target len : UInt64) :
    memory.perform (.clear target len) =
      if memory.ram.covers target.toNat len.toNat then
        .ok (memory.write target (Bytes.zeros len.toNat))
      else .error ⟨target, len⟩ := by
  simp only [perform, clear, passesOver_window hwindow, refusal?_window hwindow, UInt64.ofNat_toNat]
  cases memory.ram.covers target.toNat len.toNat <;> rfl

/-- A move is refused for its target, then for its source. -/
theorem perform_move (target source len : UInt64) :
    memory.perform (.move target source len) =
      if memory.ram.covers target.toNat len.toNat then
        if memory.ram.covers source.toNat len.toNat then
          .ok (memory.write target (memory.ram.read source.toNat len.toNat))
        else .error ⟨source, len⟩
      else .error ⟨target, len⟩ := by
  simp only [perform, move, passesOver_window hwindow, refusal?_window hwindow, UInt64.ofNat_toNat]
  cases memory.ram.covers target.toNat len.toNat <;>
    cases memory.ram.covers source.toNat len.toNat <;> rfl

theorem perform_move_of_covers {target source len : UInt64}
    (htarget : memory.ram.covers target.toNat len.toNat = true)
    (hsource : memory.ram.covers source.toNat len.toNat = true) :
    memory.perform (.move target source len) =
      .ok (memory.write target (memory.ram.read source.toNat len.toNat)) := by
  rw [perform_move hwindow, if_pos htarget, if_pos hsource]

theorem covers_of_move {target source len : UInt64} {after : Memory}
    (h : memory.perform (.move target source len) = .ok after) :
    memory.ram.covers target.toNat len.toNat = true ∧
      memory.ram.covers source.toNat len.toNat = true := by
  rw [perform_move hwindow] at h
  split at h
  case isTrue htarget =>
    split at h
    case isTrue hsource => exact ⟨htarget, hsource⟩
    case isFalse => cases h
  case isFalse => cases h

theorem perform_view (address len : UInt64) :
    memory.perform (.view address len) =
      if memory.ram.covers address.toNat len.toNat then .ok memory else .error ⟨address, len⟩ := by
  simp only [perform, view, refusal?_window hwindow, UInt64.ofNat_toNat]
  cases memory.ram.covers address.toNat len.toNat <;> rfl

end Window

/-! ## How accesses change bytes -/

@[simp] theorem write_nil (memory : Memory) (target : UInt64) :
    memory.write target [] = memory := by
  simp [write, Ram.write, Bytes.slice, Bytes.overlay]

/-- The RAM lies where it lay and is reached as it was. -/
structure SameShape (before after : Memory) : Prop where
  mapping : after.mapping = before.mapping
  base : after.ram.base = before.ram.base
  size : after.ram.size = before.ram.size

namespace SameShape

variable {first second third : Memory}

theorem refl (memory : Memory) : SameShape memory memory :=
  ⟨rfl, rfl, rfl⟩

theorem symm (h : SameShape first second) : SameShape second first :=
  ⟨h.mapping.symm, h.base.symm, h.size.symm⟩

theorem trans (h : SameShape first second) (h' : SameShape second third) :
    SameShape first third :=
  ⟨h'.mapping.trans h.mapping, h'.base.trans h.base, h'.size.trans h.size⟩

theorem covers (h : SameShape first second) (address len : Nat) :
    second.ram.covers address len = first.ram.covers address len :=
  Ram.covers_congr h.base h.size address len

theorem window (h : SameShape first second) (hwindow : first.mapping = .window) :
    second.mapping = .window :=
  h.mapping.trans hwindow

end SameShape

/-- The bytes of `patch` were written over memory, which is otherwise as it was. -/
structure Overwritten (before : Memory) (patch : Nat → Option UInt8) (after : Memory) : Prop
    extends SameShape before after where
  byte : ∀ a, after.ram.byte? a = (patch a).or (before.ram.byte? a)

/-- Every byte outside a set of addresses is as it was. -/
structure KeepsOutside (S : Nat → Prop) (before after : Memory) : Prop
    extends SameShape before after where
  byte : ∀ a, ¬S a → after.ram.byte? a = before.ram.byte? a

namespace Overwritten

variable {first second third : Memory} {p q : Nat → Option UInt8}

theorem refl (memory : Memory) : Overwritten memory (fun _ => none) memory :=
  ⟨.refl memory, fun _ => rfl⟩

/-- Of two patches the later one counts. -/
theorem trans (h : Overwritten first p second) (h' : Overwritten second q third) :
    Overwritten first (fun a => (q a).or (p a)) third where
  toSameShape := h.toSameShape.trans h'.toSameShape
  byte a := by rw [h'.byte, h.byte, Option.or_assoc]

theorem congr (h : Overwritten first p second) (hpq : ∀ a, p a = q a) :
    Overwritten first q second := by
  obtain rfl : p = q := funext hpq
  exact h

theorem keepsOutside {S : Nat → Prop} (h : Overwritten first p second)
    (hS : ∀ a, ¬S a → p a = none) : KeepsOutside S first second where
  toSameShape := h.toSameShape
  byte a ha := by rw [h.byte, hS a ha, Option.none_or]

/-- Bytes that the RAM covers are written where they belong. -/
theorem write {memory : Memory} {target : UInt64} {bytes : Bytes}
    (h : memory.ram.covers target.toNat bytes.length = true) :
    Overwritten memory (bytes.at? target.toNat) (memory.write target bytes) where
  mapping := rfl
  base := rfl
  size := Ram.size_write ..
  byte a := by
    show (memory.ram.write target.toNat bytes).byte? a = _
    rw [Ram.byte?_write h]
    by_cases ha : target.toNat ≤ a ∧ a < target.toNat + bytes.length
    · rw [if_pos ha, Bytes.at?, if_pos ha.1, List.getElem?_eq_getElem (by omega), Option.some_or]
    · rw [if_neg ha, Bytes.at?_eq_none_iff.mpr ha, Option.none_or]

/-- Memory that was overwritten is known by what was written. -/
theorem unique {after after' : Memory} (h : Overwritten first p after)
    (h' : Overwritten first p after') : after = after' := by
  have hbase := h.base.trans h'.base.symm
  have hbytes : after.ram.bytes = after'.ram.bytes := by
    apply List.ext_getElem?
    intro i
    rw [← Ram.byte?_base_add, ← Ram.byte?_base_add, h.byte, h'.byte, hbase]
  obtain ⟨mapping, base, bytes⟩ := after
  obtain ⟨mapping', base', bytes'⟩ := after'
  cases hbase
  cases hbytes
  cases h.mapping.trans h'.mapping.symm
  rfl

end Overwritten

namespace KeepsOutside

variable {first second third : Memory} {S T : Nat → Prop}

theorem refl (S : Nat → Prop) (memory : Memory) : KeepsOutside S memory memory :=
  ⟨.refl memory, fun _ _ => rfl⟩

theorem of_eq (h : second = first) : KeepsOutside S first second :=
  h ▸ refl S second

theorem trans (h : KeepsOutside S first second) (h' : KeepsOutside S second third) :
    KeepsOutside S first third where
  toSameShape := h.toSameShape.trans h'.toSameShape
  byte a ha := (h'.byte a ha).trans (h.byte a ha)

theorem mono (h : KeepsOutside S first second) (hST : ∀ a, S a → T a) :
    KeepsOutside T first second where
  toSameShape := h.toSameShape
  byte a ha := h.byte a fun hS => ha (hST a hS)

/-- A range that shares no address with the set reads as it did. -/
theorem read (h : KeepsOutside S first second) {address len : Nat}
    (hapart : ∀ a, (Span.mk address len).Holds a → ¬S a) :
    second.ram.read address len = first.ram.read address len :=
  Ram.read_congr fun a ha => h.byte a (hapart a ha)

end KeepsOutside

end Memory

end Chainload
