import Chainload.Screen.Grid

/-!
# What a cell shows

The value of a cell stands for a character and a style: `Cell.ofValue` reads the one off the low
byte and the other off the high byte. That is what `encode` puts there (`Cell.ofValue_encode`), and
a blank cell shows a space (`Cell.ofValue_blank`).
-/

namespace Chainload.Screen

/-- A character in a style. -/
structure Cell where
  character : UInt8
  style : Style
  deriving DecidableEq, Repr

/-- The character is the low byte of the value, the style the high one. -/
theorem toNat_encode (byte : UInt8) (style : Style) :
    (encode byte style).toNat = style.bits.toNat * 256 + byte.toNat := by
  have hbyte : byte.toNat < 2 ^ 8 := byte.toNat_lt
  have hbits : style.bits.toNat * 256 < 2 ^ 16 := by
    have hlt := style.bits.toNat_lt
    omega
  have hshift : (style.bits.toUInt16 <<< 8).toNat = style.bits.toNat <<< 8 := by
    rw [UInt16.toNat_shiftLeft, UInt8.toNat_toUInt16, Nat.shiftLeft_eq, Nat.shiftLeft_eq]
    exact Nat.mod_eq_of_lt hbits
  rw [encode, UInt16.toNat_or, hshift, UInt8.toNat_toUInt16,
    ← Nat.shiftLeft_add_eq_or_of_lt hbyte, Nat.shiftLeft_eq]

namespace Cell

/-- What a value shows: the character of its low byte, in the style of its high byte. -/
def ofValue (value : UInt16) : Cell where
  character := UInt8.ofNat (value.toNat % 256)
  style := ⟨UInt8.ofNat (value.toNat / 256)⟩

@[simp] theorem ofValue_encode (byte : UInt8) (style : Style) :
    ofValue (encode byte style) = ⟨byte, style⟩ := by
  have hbyte := byte.toNat_lt
  have hlow : (style.bits.toNat * 256 + byte.toNat) % 256 = byte.toNat := by omega
  have hhigh : (style.bits.toNat * 256 + byte.toNat) / 256 = style.bits.toNat := by omega
  rw [ofValue, toNat_encode, hlow, hhigh, UInt8.ofNat_toNat, UInt8.ofNat_toNat]

@[simp] theorem ofValue_blank (style : Style) : ofValue (blank style) = ⟨0x20, style⟩ :=
  ofValue_encode 0x20 style

end Cell

namespace Grid

variable {grid after : Grid} {row col : Nat} {byte : UInt8} {style : Style}

/-- What a cell of the screen shows. -/
def shown? (grid : Grid) (row col : Nat) : Option Cell :=
  (grid.cell? row col).map Cell.ofValue

theorem shown?_put? (h : grid.put? row col byte style = some after) (r c : Nat) :
    after.shown? r c = if r = row ∧ c = col then some ⟨byte, style⟩ else grid.shown? r c := by
  rw [shown?, cell?_put? h]
  split
  · rw [Option.map_some, Cell.ofValue_encode]
  · rfl

theorem shown?_scroll (grid : Grid) (style : Style) (h : row < height ∧ col < width) :
    (grid.scroll style).shown? row col =
      if row + 1 < height then grid.shown? (row + 1) col else some ⟨0x20, style⟩ := by
  rw [shown?, cell?_scroll grid style h]
  split
  · rfl
  · rw [Option.map_some, Cell.ofValue_blank]

end Grid

end Chainload.Screen
