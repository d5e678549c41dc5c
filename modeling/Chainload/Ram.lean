import Chainload.Bytes

/-!
# RAM

`size` bytes from a physical base address on. Addresses are natural numbers here, so ranges never
wrap. A read outside the RAM finds zeros and a write outside is lost; `Ram.covers` says when neither
happens.
-/

namespace Chainload

/-- Bytes at consecutive physical addresses. -/
structure Ram where
  base : UInt64
  bytes : Bytes
  deriving DecidableEq, Repr

namespace Ram

/-- The number of bytes. -/
def size (ram : Ram) : Nat :=
  ram.bytes.length

/-- Whether `[address, address + len)` lies in the RAM. An empty range has to start in it or at its
end. -/
def covers (ram : Ram) (address len : Nat) : Bool :=
  ram.base.toNat ≤ address && address + len ≤ ram.base.toNat + ram.size

/-- The byte at an address. -/
def byte? (ram : Ram) (address : Nat) : Option UInt8 :=
  if ram.base.toNat ≤ address then ram.bytes[address - ram.base.toNat]? else none

/-- The `len` bytes from `address` on, with zeros for those outside the RAM. -/
def read (ram : Ram) (address len : Nat) : Bytes :=
  let below := min len (ram.base.toNat - address)
  let found := ram.bytes.slice (address - ram.base.toNat) (len - below)
  Bytes.zeros below ++ found ++ Bytes.zeros (len - below - found.length)

/-- The `len` bytes from `address` on, if the RAM holds all of them. -/
def read? (ram : Ram) (address len : Nat) : Option Bytes :=
  if ram.covers address len then some (ram.read address len) else none

/-- The RAM after `patch` was written from `address` on. -/
def write (ram : Ram) (address : Nat) (patch : Bytes) : Ram :=
  let offset := address - ram.base.toNat
  let inside := patch.slice (ram.base.toNat - address) (ram.size - offset)
  { ram with bytes := ram.bytes.overlay offset inside }

/-! ## Writing -/

@[simp] theorem base_write (ram : Ram) (address : Nat) (patch : Bytes) :
    (ram.write address patch).base = ram.base :=
  rfl

/-- A write behind the RAM is lost. -/
theorem write_of_size_le {ram : Ram} {address : Nat} (patch : Bytes)
    (h : ram.size ≤ address - ram.base.toNat) : ram.write address patch = ram := by
  have hlost : ram.size - (address - ram.base.toNat) = 0 := Nat.sub_eq_zero_of_le h
  simp [write, hlost, Bytes.slice, Bytes.overlay]

/-- The part of a patch that a write leaves in the RAM. -/
theorem write_inside {ram : Ram} {address : Nat} (patch : Bytes)
    (h : address - ram.base.toNat ≤ ram.size) :
    ∃ inside : Bytes, ram.write address patch =
        { ram with bytes := ram.bytes.overlay (address - ram.base.toNat) inside } ∧
      address - ram.base.toNat + inside.length ≤ ram.bytes.length ∧
      inside.length ≤ patch.length - (ram.base.toNat - address) := by
  refine ⟨_, rfl, ?_, ?_⟩
  · have hfits := List.length_take_le (ram.size - (address - ram.base.toNat))
      (patch.drop (ram.base.toNat - address))
    exact Nat.le_trans (Nat.add_le_add_left hfits _) (Nat.le_of_eq (Nat.add_sub_of_le h))
  · have hpart := List.length_take_le' (ram.size - (address - ram.base.toNat))
      (patch.drop (ram.base.toNat - address))
    rwa [List.length_drop] at hpart

@[simp] theorem size_write (ram : Ram) (address : Nat) (patch : Bytes) :
    (ram.write address patch).size = ram.size := by
  rcases Nat.le_total ram.size (address - ram.base.toNat) with hbehind | hstart
  · rw [write_of_size_le patch hbehind]
  · obtain ⟨inside, hwrite, hfits, -⟩ := write_inside patch hstart
    rw [hwrite]
    exact Bytes.length_overlay hfits

/-! ## Writing inside the RAM -/

theorem covers_iff {ram : Ram} {address len : Nat} :
    ram.covers address len = true ↔
      ram.base.toNat ≤ address ∧ address + len ≤ ram.base.toNat + ram.size := by
  simp [covers]

theorem write_of_covers {ram : Ram} {address : Nat} {patch : Bytes}
    (h : ram.covers address patch.length = true) :
    ram.write address patch =
      { ram with bytes := ram.bytes.overlay (address - ram.base.toNat) patch } := by
  obtain ⟨hlow, hhigh⟩ := covers_iff.mp h
  have hskip : ram.base.toNat - address = 0 := by omega
  have hpatch : patch.slice (ram.base.toNat - address)
      (ram.size - (address - ram.base.toNat)) = patch := by
    rw [hskip, Bytes.slice, List.drop_zero]
    exact List.take_of_length_le (by omega)
  simp only [write, hpatch]

/-- After a write its range holds the patch, and every other address its old byte. -/
theorem byte?_write {ram : Ram} {address : Nat} {patch : Bytes}
    (h : ram.covers address patch.length = true) (a : Nat) :
    (ram.write address patch).byte? a =
      if address ≤ a ∧ a < address + patch.length then patch[a - address]? else ram.byte? a := by
  obtain ⟨hlow, hhigh⟩ := covers_iff.mp h
  unfold size at hhigh
  rw [write_of_covers h]
  simp only [byte?]
  by_cases ha : ram.base.toNat ≤ a
  · rw [if_pos ha, if_pos ha, Bytes.getElem?_overlay (by omega)]
    by_cases hin : address ≤ a ∧ a < address + patch.length
    · rw [if_pos hin, if_pos (by omega)]
      congr 1
      omega
    · rw [if_neg hin, if_neg (by omega)]
  · rw [if_neg ha, if_neg ha, if_neg (by omega)]

end Ram

end Chainload
