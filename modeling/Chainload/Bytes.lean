/-!
# Bytes and little-endian words

Images, tables and memory contents are lists of bytes. This file reads a word out of such a
list, writes a word as bytes, and lays one list of bytes over another.

* `Bytes.toNat` and `Bytes.ofNat` : the number that bytes spell, least significant byte first,
  and the bytes that spell a number. The bytes of a number that was read are those it was read from
  (`ofNat_toNat`).
* `Bytes.overlay` : the list with a patch written over it; `getElem?_overlay` says what every
  position holds afterwards.
-/

namespace Chainload

/-- A finite sequence of bytes. -/
abbrev Bytes := List UInt8

namespace Bytes

/-- The number that the bytes spell in base 256, the least significant byte first. -/
def toNat : Bytes → Nat
  | [] => 0
  | b :: rest => b.toNat + 256 * toNat rest

/-- The lowest `count` base 256 digits of a number, the least significant first. -/
def ofNat : (count : Nat) → Nat → Bytes
  | 0, _ => []
  | count + 1, n => UInt8.ofNat n :: ofNat count (n / 256)

/-- The `len` bytes from `offset` on, fewer where the list ends. -/
def slice (bytes : Bytes) (offset len : Nat) : Bytes :=
  (bytes.drop offset).take len

/-- The 16-bit word at `offset`. -/
def word16 (bytes : Bytes) (offset : Nat) : UInt16 :=
  UInt16.ofNat (toNat (bytes.slice offset 2))

/-- The 32-bit word at `offset`. -/
def word32 (bytes : Bytes) (offset : Nat) : UInt32 :=
  UInt32.ofNat (toNat (bytes.slice offset 4))

/-- The 64-bit word at `offset`. -/
def word64 (bytes : Bytes) (offset : Nat) : UInt64 :=
  UInt64.ofNat (toNat (bytes.slice offset 8))

/-- The two bytes of a 16-bit word. -/
def ofUInt16 (w : UInt16) : Bytes :=
  ofNat 2 w.toNat

/-- The four bytes of a 32-bit word. -/
def ofUInt32 (w : UInt32) : Bytes :=
  ofNat 4 w.toNat

/-- The eight bytes of a 64-bit word. -/
def ofUInt64 (w : UInt64) : Bytes :=
  ofNat 8 w.toNat

/-- A run of zero bytes. -/
def zeros (len : Nat) : Bytes :=
  List.replicate len 0

/-- The bytes with `patch` written over them from `offset` on. -/
def overlay (bytes : Bytes) (offset : Nat) (patch : Bytes) : Bytes :=
  bytes.take offset ++ patch ++ bytes.drop (offset + patch.length)

/-! ## Spelling numbers -/

@[simp] theorem length_ofNat (count n : Nat) : (ofNat count n).length = count := by
  induction count generalizing n with
  | zero => rfl
  | succ count ih => simp [ofNat, ih]

theorem ofNat_toNat (bytes : Bytes) : ofNat bytes.length (toNat bytes) = bytes := by
  induction bytes with
  | nil => rfl
  | cons b rest ih =>
    have hb := b.toNat_lt
    have hdiv : (b.toNat + 256 * toNat rest) / 256 = toNat rest := by omega
    have hlow : UInt8.ofNat (b.toNat + 256 * toNat rest) = b := by
      apply UInt8.toNat_inj.mp
      rw [UInt8.toNat_ofNat']
      omega
    simp [toNat, ofNat, hdiv, hlow, ih]

/-! ## Cutting out bytes -/

theorem length_slice {bytes : Bytes} {offset len : Nat} (h : offset + len ≤ bytes.length) :
    (bytes.slice offset len).length = len := by
  rw [slice, List.length_take, List.length_drop]
  omega

theorem slice_append_drop (bytes : Bytes) (offset len : Nat) :
    bytes.slice offset len ++ bytes.drop (offset + len) = bytes.drop offset := by
  rw [slice, ← List.drop_drop, List.take_append_drop]

/-! ## Writing over bytes -/

@[simp] theorem length_zeros (len : Nat) : (zeros len).length = len :=
  List.length_replicate

theorem length_overlay {bytes patch : Bytes} {offset : Nat}
    (h : offset + patch.length ≤ bytes.length) :
    (bytes.overlay offset patch).length = bytes.length := by
  simp only [overlay, List.length_append, List.length_take, List.length_drop]
  omega

/-- The patch is what its range holds; every other position keeps its byte. -/
theorem getElem?_overlay {bytes patch : Bytes} {offset : Nat}
    (h : offset + patch.length ≤ bytes.length) (i : Nat) :
    (bytes.overlay offset patch)[i]? =
      if offset ≤ i ∧ i < offset + patch.length then patch[i - offset]? else bytes[i]? := by
  have ht : (bytes.take offset).length = offset := by
    rw [List.length_take]
    omega
  unfold overlay
  by_cases h1 : i < offset
  · rw [if_neg (by omega), List.append_assoc, List.getElem?_append_left (by omega),
      List.getElem?_take_of_lt h1]
  · rw [List.append_assoc, List.getElem?_append_right (by omega), ht]
    by_cases h2 : i < offset + patch.length
    · rw [if_pos ⟨by omega, h2⟩, List.getElem?_append_left (by omega)]
    · rw [if_neg (by omega), List.getElem?_append_right (by omega), List.getElem?_drop]
      congr 1
      omega

end Bytes

end Chainload
