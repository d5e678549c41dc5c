import Mathlib.Tactic.Ring
import Chainload.Bytes

/-!
# Little-endian spelling

Bytes and numbers in base 256: `n` bytes spell the numbers below `256 ^ n`, and writing a number in
`n` bytes and reading it back leaves its remainder modulo `256 ^ n` (`toNat_ofNat`). A word that
was read is the number that its bytes spell (`toNat_word32`), and it is spelled by the bytes that it
was read from (`ofUInt32_word32`, `ofUInt64_word64`).
-/

namespace Chainload.Bytes

theorem toNat_lt (bytes : Bytes) : toNat bytes < 256 ^ bytes.length := by
  induction bytes with
  | nil => simp [toNat]
  | cons b rest ih =>
    have hb := b.toNat_lt
    simp only [toNat, List.length_cons, Nat.pow_succ]
    omega

theorem toNat_ofNat (count n : Nat) : toNat (ofNat count n) = n % 256 ^ count := by
  induction count generalizing n with
  | zero => simp [toNat, ofNat, Nat.mod_one]
  | succ count ih =>
    have h : n % 256 ^ (count + 1) = n % 256 + 256 * (n / 256 % 256 ^ count) := by
      rw [Nat.pow_succ', Nat.mod_mul]
    simp only [toNat, ofNat, ih, h, UInt8.toNat_ofNat']

/-- The bytes of a number that was read from a slice are the slice. -/
theorem ofNat_toNat_slice {bytes : Bytes} {offset len : Nat} (h : offset + len ≤ bytes.length) :
    ofNat len (toNat (bytes.slice offset len)) = bytes.slice offset len := by
  have hspelled := ofNat_toNat (bytes.slice offset len)
  rwa [length_slice h] at hspelled

theorem toNat_slice_lt (bytes : Bytes) (offset len : Nat) :
    toNat (bytes.slice offset len) < 256 ^ len :=
  Nat.lt_of_lt_of_le (toNat_lt _)
    (Nat.pow_le_pow_right (by decide) (List.length_take_le len (bytes.drop offset)))

/-! ## Words -/

theorem toNat_word16 (bytes : Bytes) (offset : Nat) :
    (bytes.word16 offset).toNat = toNat (bytes.slice offset 2) :=
  UInt16.toNat_ofNat_of_lt' (toNat_slice_lt bytes offset 2)

theorem toNat_word32 (bytes : Bytes) (offset : Nat) :
    (bytes.word32 offset).toNat = toNat (bytes.slice offset 4) :=
  UInt32.toNat_ofNat_of_lt' (toNat_slice_lt bytes offset 4)

theorem toNat_word64 (bytes : Bytes) (offset : Nat) :
    (bytes.word64 offset).toNat = toNat (bytes.slice offset 8) :=
  UInt64.toNat_ofNat_of_lt' (toNat_slice_lt bytes offset 8)

theorem ofUInt32_word32 {bytes : Bytes} {offset : Nat} (h : offset + 4 ≤ bytes.length) :
    ofUInt32 (bytes.word32 offset) = bytes.slice offset 4 := by
  rw [ofUInt32, toNat_word32, ofNat_toNat_slice h]

theorem ofUInt64_word64 {bytes : Bytes} {offset : Nat} (h : offset + 8 ≤ bytes.length) :
    ofUInt64 (bytes.word64 offset) = bytes.slice offset 8 := by
  rw [ofUInt64, toNat_word64, ofNat_toNat_slice h]

end Chainload.Bytes
