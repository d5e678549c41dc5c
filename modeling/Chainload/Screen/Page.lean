import Chainload.Screen.Cell
import Chainload.Screen.Cursor

/-!
# The endless page

A page has rows of 80 cells without end, and what is written stays. The first 25 rows are those of a
screen; a later row has no cells until it is entered, and spaces from then on, in the style in force
at that moment. Writing fills rows from left to right, and `Page.window` is the part that a screen
shows, the last 25 rows up to the one that is written.
-/

namespace Chainload.Screen

/-- Rows of cells without end, with the cell that is written next. -/
structure Page where
  cells : (row col : Nat) → Option Cell
  row : Nat
  col : Nat
  style : Style

namespace Page

/-- The page that starts with a screen, at the start of a row. -/
def ofGrid (grid : Grid) (row : Nat) (style : Style) : Page where
  cells := grid.shown?
  row := row
  col := 0
  style := style

/-- The page that is written in another style. -/
def withStyle (page : Page) (style : Style) : Page :=
  { page with style := style }

/-- Moves to the start of the next row, which has spaces if it lies below the first screen. -/
def nextRow (page : Page) : Page :=
  { page with
    cells := fun row col =>
      if row = page.row + 1 ∧ height ≤ row ∧ col < width then some ⟨0x20, page.style⟩
      else page.cells row col
    row := page.row + 1
    col := 0 }

/-- Writes a character where the page is written next. -/
def put (page : Page) (byte : UInt8) : Page :=
  { page with
    cells := fun row col =>
      if row = page.row ∧ col = page.col then some ⟨byte, page.style⟩ else page.cells row col
    col := page.col + 1 }

/-- The page with room for a character in its row. A full row is left first. -/
def ready (page : Page) : Page :=
  if page.col = width then page.nextRow else page

/-- Writes a byte: a newline moves on, every other byte fills a cell. -/
def feed (page : Page) (byte : UInt8) : Page :=
  if byte = Cursor.newline then page.nextRow else page.ready.put byte

/-- The first row that a screen shows. -/
def top (page : Page) : Nat :=
  page.row - (height - 1)

/-- What a screen shows. -/
def window (page : Page) (row col : Nat) : Option Cell :=
  page.cells (page.top + row) col

end Page

end Chainload.Screen
