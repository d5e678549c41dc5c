/-!
# Pointer widths

Code in 32-bit flat mode reaches the low 4 GiB of physical memory, code in long mode all of it.
A pointer cast drops the bits that do not fit (`Width.truncate`).
-/

namespace Chainload

/-- The pointer width of the code that dereferences a physical address. -/
inductive Width
  | bits32
  | bits64
  deriving DecidableEq, Repr

namespace Width

/-- The width of the machine this library describes, a host in long mode. -/
def native : Width :=
  .bits64

/-- The number of bits of a pointer. -/
def bits : Width → Nat
  | .bits32 => 32
  | .bits64 => 64

/-- The highest address that a pointer can hold. -/
def highest : Width → UInt64
  | .bits32 => 0xFFFF_FFFF
  | .bits64 => 0xFFFF_FFFF_FFFF_FFFF

/-- Whether a pointer can hold the address. -/
def reaches (width : Width) (address : UInt64) : Bool :=
  address ≤ width.highest

/-- The address that is left when a pointer of this width is made from `address`. -/
def truncate (width : Width) (address : UInt64) : UInt64 :=
  address &&& width.highest

/-- A number as a word of the machine, if it is one. -/
def word? (machine : Width) (n : Nat) : Option Nat :=
  if n ≤ machine.highest.toNat then some n else none

/-- The start of a range and the number of its bytes, in words of the machine, if the range ends
within a limit. -/
def range? (machine : Width) (start count limit : Nat) : Option (Nat × Nat) := do
  let start ← machine.word? start
  let count ← machine.word? count
  let stop ← machine.word? (start + count)
  if stop ≤ limit then return (start, count) else none

/-- The width as diagnostics show it. -/
def text (width : Width) : String :=
  s!"{width.bits}-bit"

theorem reaches_iff (width : Width) (address : UInt64) :
    width.reaches address = true ↔ address.toNat ≤ width.highest.toNat := by
  simp [reaches, UInt64.le_iff_toNat_le]

@[simp] theorem reaches_bits64 (address : UInt64) : bits64.reaches address = true := by
  have h := address.toNat_lt
  have hhighest : bits64.highest.toNat = 0xFFFF_FFFF_FFFF_FFFF := rfl
  rw [reaches_iff, hhighest]
  omega

/-- Truncation is the remainder modulo the number of addresses of the width. -/
theorem toNat_truncate (width : Width) (address : UInt64) :
    (width.truncate address).toNat = address.toNat % (width.highest.toNat + 1) := by
  cases width <;> simp only [truncate, UInt64.toNat_and]
  · exact Nat.and_two_pow_sub_one_eq_mod address.toNat 32
  · exact Nat.and_two_pow_sub_one_eq_mod address.toNat 64

/-- An address that fits is left as it is. -/
theorem truncate_of_reaches {width : Width} {address : UInt64}
    (h : width.reaches address = true) : width.truncate address = address := by
  apply UInt64.toNat_inj.mp
  rw [toNat_truncate]
  exact Nat.mod_eq_of_lt (Nat.lt_succ_of_le (reaches_iff width address |>.mp h))

/-! ## Words of a machine -/

theorem word?_bind {α : Type} (machine : Width) (n : Nat) (f : Nat → Option α) :
    (machine.word? n >>= f) = if n ≤ machine.highest.toNat then f n else none := by
  unfold word?
  split <;> rfl

/-- If the limit is a word of the machine, so is every number of a range that ends within it. -/
theorem range?_eq {machine : Width} {limit : Nat} (h : limit ≤ machine.highest.toNat)
    (start count : Nat) :
    machine.range? start count limit =
      if start + count ≤ limit then some (start, count) else none := by
  simp only [range?, word?_bind]
  by_cases hinside : start + count ≤ limit
  · have hstop := Nat.le_trans hinside h
    rw [if_pos (Nat.le_of_add_right_le hstop), if_pos (Nat.le_of_add_left_le hstop), if_pos hstop]
    rfl
  · simp only [if_neg hinside, ite_self]

end Width

end Chainload
