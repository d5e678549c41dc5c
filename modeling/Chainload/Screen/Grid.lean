import Chainload.Log
import Chainload.Screen.Style

/-!
# The text screen

A grid of 25 rows of 80 cells. A cell holds a character in its low byte and its style in the high
byte. Writes outside the grid are dropped.
-/

namespace Chainload.Screen

/-- Where the hardware has the grid. -/
def hardwareAddress : Nat := 0xB8000

/-- The number of cells of a row. -/
def width : Nat := 80

/-- The number of rows. -/
def height : Nat := 25

/-- The number of cells. -/
def cellCount : Nat := width * height

/-- The value of a cell. -/
def encode (byte : UInt8) (style : Style) : UInt16 :=
  (style.bits.toUInt16 <<< 8) ||| byte.toUInt16

/-- The value of a cell without a character. -/
def blank (style : Style) : UInt16 :=
  encode 0x20 style

/-- The cells of the screen, row by row. -/
structure Grid where
  cells : Vector UInt16 cellCount
  deriving DecidableEq, Repr

namespace Grid

/-- The grid with the same value in every cell. -/
def filled (value : UInt16) : Grid :=
  ⟨Vector.replicate cellCount value⟩

/-- The value of a cell, if it is on the screen. -/
def cell? (grid : Grid) (row col : Nat) : Option UInt16 :=
  if row < height ∧ col < width then grid.cells[row * width + col]? else none

/-- The grid with one character written, or nothing if the cell is off the screen. -/
def put? (grid : Grid) (row col : Nat) (byte : UInt8) (style : Style) : Option Grid :=
  if row < height ∧ col < width then
    some ⟨grid.cells.setIfInBounds (row * width + col) (encode byte style)⟩
  else none

/-- Writes bytes from a cell on, up to the first that is off the screen. Returns how many were
written. -/
def putBytes (grid : Grid) (row col : Nat) (style : Style) : Bytes → Grid × Nat
  | [] => (grid, 0)
  | byte :: rest =>
    match grid.put? row col byte style with
    | none => (grid, 0)
    | some grid =>
      let (grid, count) := grid.putBytes row (col + 1) style rest
      (grid, count + 1)

/-- Writes a text, byte by byte, from a cell on. It is cut off at the end of the row. Returns how
many bytes were written. -/
def putText (grid : Grid) (row col : Nat) (text : String) (style : Style) : Grid × Nat :=
  grid.putBytes row col style (Log.textBytes text)

/-- The grid with one row blank. -/
def blankRow (grid : Grid) (row : Nat) (style : Style) : Grid :=
  ⟨grid.cells.mapIdx fun i value => if i / width = row then blank style else value⟩

/-- The blank grid. -/
def clear (_ : Grid) (style : Style) : Grid :=
  filled (blank style)

/-- The grid with every row moved up by one and the last row blank. -/
def scroll (grid : Grid) (style : Style) : Grid :=
  ⟨Vector.ofFn fun i => grid.cells[i.val + width]?.getD (blank style)⟩

variable {grid after : Grid} {row col : Nat} {byte : UInt8} {style : Style}

theorem put?_of_on (h : row < height ∧ col < width) :
    grid.put? row col byte style =
      some ⟨grid.cells.setIfInBounds (row * width + col) (encode byte style)⟩ :=
  if_pos h

theorem put?_of_off (h : ¬(row < height ∧ col < width)) : grid.put? row col byte style = none :=
  if_neg h

/-- Every cell of the screen has a place of its own among the cells. -/
theorem index_lt (h : row < height ∧ col < width) : row * width + col < cellCount := by
  simp only [height, width, cellCount] at h ⊢
  omega

/-- A character changes its own cell only. -/
theorem cell?_put? (h : grid.put? row col byte style = some after) (r c : Nat) :
    after.cell? r c = if r = row ∧ c = col then some (encode byte style) else grid.cell? r c := by
  by_cases hon : row < height ∧ col < width
  case neg => cases (put?_of_off hon).symm.trans h
  obtain rfl := Option.some.inj ((put?_of_on hon).symm.trans h)
  have hindex := index_lt hon
  unfold cell?
  by_cases hcell : r = row ∧ c = col
  · obtain ⟨rfl, rfl⟩ := hcell
    rw [if_pos hon, if_pos ⟨rfl, rfl⟩, Vector.getElem?_setIfInBounds_self_of_lt hindex]
  · rw [if_neg hcell]
    by_cases hon' : r < height ∧ c < width
    · have hapart : row * width + col ≠ r * width + c := by
        simp only [width, height] at hon hon' ⊢
        omega
      rw [if_pos hon', if_pos hon', Vector.getElem?_setIfInBounds_ne hapart]
    · rw [if_neg hon', if_neg hon']

/-- Scrolling moves every cell up by a row and leaves the last row blank. -/
theorem cell?_scroll (grid : Grid) (style : Style) (h : row < height ∧ col < width) :
    (grid.scroll style).cell? row col =
      if row + 1 < height then grid.cell? (row + 1) col else some (blank style) := by
  have hbelow : row * width + col + width = (row + 1) * width + col := by
    simp only [width]
    omega
  have hindex := index_lt h
  rw [cell?, if_pos h, Vector.getElem?_eq_getElem hindex]
  show some ((Vector.ofFn _)[row * width + col]) = _
  rw [Vector.getElem_ofFn]
  by_cases hnext : row + 1 < height
  · have hon : row + 1 < height ∧ col < width := ⟨hnext, h.2⟩
    rw [if_pos hnext, hbelow, cell?, if_pos hon, Vector.getElem?_eq_getElem (index_lt hon),
      Option.getD_some]
  · have hgone : cellCount ≤ row * width + col + width := by
      simp only [height, width, cellCount] at hnext ⊢
      omega
    rw [if_neg hnext, Vector.getElem?_eq_none hgone, Option.getD_none]

end Grid

end Chainload.Screen
