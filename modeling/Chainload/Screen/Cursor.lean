import Chainload.Screen.Grid

/-!
# Writing like a terminal

A cursor writes characters one after the other. A row that is full is left when the next character
arrives, so a newline behind 80 characters does not skip a row. Below the last row the screen
scrolls.
-/

namespace Chainload.Screen

/-- A screen with the cell that is written next, and the style it is written with. -/
structure Cursor where
  grid : Grid
  row : Nat
  col : Nat
  style : Style
  deriving DecidableEq, Repr

namespace Cursor

/-- The byte that moves to the next row. -/
def newline : UInt8 := 0x0A

/-- What is shown for a character without a byte of its own. -/
def placeholder : UInt8 := 0xFE

/-- The cursor at the start of the first row. -/
def ofGrid (grid : Grid) (style : Style) : Cursor :=
  ⟨grid, 0, 0, style⟩

/-- The cursor at the start of a row, the last one if there is no such row. -/
def atRow (cursor : Cursor) (row : Nat) : Cursor :=
  { cursor with row := min row (height - 1), col := 0 }

/-- The cursor that writes in another style. -/
def withStyle (cursor : Cursor) (style : Style) : Cursor :=
  { cursor with style := style }

/-- Moves to the start of the next row, scrolling if there is none. -/
def nextRow (cursor : Cursor) : Cursor :=
  if cursor.row + 1 < height then { cursor with row := cursor.row + 1, col := 0 }
  else { cursor with grid := cursor.grid.scroll cursor.style, col := 0 }

/-- Writes a character where the cursor is. -/
def put (cursor : Cursor) (byte : UInt8) : Cursor :=
  { cursor with
    grid := (cursor.grid.put? cursor.row cursor.col byte cursor.style).getD cursor.grid
    col := cursor.col + 1 }

/-- Writes a byte: a newline moves on, every other byte fills a cell. -/
def feed (cursor : Cursor) (byte : UInt8) : Cursor :=
  if byte = newline then cursor.nextRow
  else if width ≤ cursor.col then cursor.nextRow.put byte
  else cursor.put byte

/-- The byte that shows a character: its own from space to tilde and for a newline. -/
def byteOf (c : Char) : UInt8 :=
  if c = '\n' then newline
  else if ' ' ≤ c ∧ c ≤ '~' then c.toNat.toUInt8
  else placeholder

/-- Writes a text, one byte for each character. -/
def feedText (cursor : Cursor) (text : String) : Cursor :=
  text.toList.foldl (fun cursor c => cursor.feed (byteOf c)) cursor

end Cursor

end Chainload.Screen
