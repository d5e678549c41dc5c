import Chainload.Address.Width
import Chainload.Screen.Cell

/-!
# Writing a text into a row

A text is written byte by byte and ends with its row at the latest (`Grid.room`). The row shows what
was written from the first cell on, each byte in the style of the text, and no other cell is touched
(`Grid.HoldsText`).

`Grid.writeText?` writes in the arithmetic of a machine: it has no result if the sum of the column
and the index of a byte exceeds a machine word, or if a value is stored outside the cells. Neither
happens, for any column that a machine word holds (`Grid.writeText?_eq`): a byte is refused before
its column can get that far.
-/

namespace Chainload.Screen

namespace Grid

/-! ## The bytes of a text -/

/-- The number of cells from a cell to the end of its row, none if the cell is off the screen. -/
def room (row col : Nat) : Nat :=
  if row < height ∧ col < width then width - col else 0

theorem room_succ {row col : Nat} (h : row < height ∧ col < width) :
    room row col = room row (col + 1) + 1 := by
  unfold room
  by_cases hlast : col + 1 < width
  · rw [if_pos h, if_pos ⟨h.1, hlast⟩]
    omega
  · rw [if_pos h, if_neg fun hnext => hlast hnext.2]
    omega

/-- The row shows the bytes from a cell on, and every other cell is as it was. -/
structure HoldsText (before : Grid) (row col : Nat) (style : Style) (bytes : Bytes)
    (after : Grid) : Prop where
  cell : ∀ i byte, bytes[i]? = some byte →
    after.shown? row (col + i) = some ⟨byte, style⟩
  rest : ∀ r c, ¬(r = row ∧ col ≤ c ∧ c < col + bytes.length) →
    after.cell? r c = before.cell? r c

theorem HoldsText.nil (grid : Grid) (row col : Nat) (style : Style) :
    HoldsText grid row col style [] grid :=
  ⟨nofun, fun _ _ _ => rfl⟩

/-- A character in front of the bytes is not written over by them. -/
theorem HoldsText.cons {before between after : Grid} {row col : Nat} {style : Style} {byte : UInt8}
    {bytes : Bytes} (hput : before.put? row col byte style = some between)
    (h : HoldsText between row (col + 1) style bytes after) :
    HoldsText before row col style (byte :: bytes) after where
  cell
    | 0, first, hfirst => by
      obtain rfl := Option.some.inj hfirst
      rw [shown?, h.rest row (col + 0) (by omega)]
      exact (shown?_put? hput row col).trans (if_pos ⟨rfl, rfl⟩)
    | i + 1, other, hother => by
      rw [← Nat.add_assoc, Nat.add_right_comm]
      exact h.cell i other hother
  rest r c hapart := by
    rw [List.length_cons] at hapart
    rw [h.rest r c (by omega), cell?_put? hput, if_neg (by omega)]

/-- As many bytes are written as there is room for. -/
theorem putBytes_spec (row : Nat) (style : Style) :
    ∀ (bytes : Bytes) (grid : Grid) (col : Nat),
      (grid.putBytes row col style bytes).2 = min bytes.length (room row col) ∧
        HoldsText grid row col style (bytes.take (room row col))
          (grid.putBytes row col style bytes).1
  | [], grid, col => by
    rw [List.take_nil]
    exact ⟨(Nat.zero_min _).symm, .nil grid row col style⟩
  | byte :: rest, grid, col => by
    by_cases hon : row < height ∧ col < width
    · obtain ⟨hcount, hholds⟩ := putBytes_spec row style rest
        ⟨grid.cells.setIfInBounds (row * width + col) (encode byte style)⟩ (col + 1)
      rw [putBytes, put?_of_on hon, room_succ hon, List.take_succ_cons, List.length_cons,
        Nat.succ_min_succ, ← hcount]
      exact ⟨rfl, hholds.cons (put?_of_on hon)⟩
    · rw [putBytes, put?_of_off hon, room, if_neg hon, List.take_zero]
      exact ⟨(Nat.min_zero _).symm, .nil grid row col style⟩

/-! ## Machine arithmetic -/

/-- The grid with a value stored, if there is a cell with the index. -/
def store? (grid : Grid) (index : Nat) (value : UInt16) : Option Grid :=
  if h : index < cellCount then some ⟨grid.cells.set index value h⟩ else none

/-- Writes one character and tells whether it is on the screen. -/
def tryPut? (grid : Grid) (row col : Nat) (byte : UInt8) (style : Style) :
    Option (Grid × Bool) :=
  if row < height ∧ col < width then
    (grid.store? (row * width + col) (encode byte style)).map (·, true)
  else some (grid, false)

/-- Writes the bytes of a text from the one with the given index on, up to the first that is off the
screen. Returns how many were written. -/
def writeFrom? (grid : Grid) (machine : Width) (row col : Nat) (style : Style) :
    (index : Nat) → Bytes → Option (Grid × Nat)
  | _, [] => some (grid, 0)
  | index, byte :: rest => do
    let column ← machine.word? (col + index)
    let (grid, written) ← grid.tryPut? row column byte style
    if written then
      let (grid, count) ← grid.writeFrom? machine row col style (index + 1) rest
      return (grid, count + 1)
    else return (grid, 0)

/-- Writes a text from a cell on, with the column of every byte computed from its index. -/
def writeText? (grid : Grid) (machine : Width) (row col : Nat) (text : String) (style : Style) :
    Option (Grid × Nat) :=
  grid.writeFrom? machine row col style 0 (Log.textBytes text)

theorem tryPut?_eq (grid : Grid) (row col : Nat) (byte : UInt8) (style : Style) :
    grid.tryPut? row col byte style =
      match grid.put? row col byte style with
      | some after => some (after, true)
      | none => some (grid, false) := by
  unfold tryPut? put?
  split
  case isTrue hon =>
    rw [store?, dif_pos (index_lt hon), Option.map_some]
    simp [Vector.setIfInBounds, Vector.set, Array.setIfInBounds, index_lt hon]
  case isFalse => rfl

/-- While bytes are written the column stays on the screen, so the next one is a machine word. -/
theorem writeFrom?_eq (machine : Width) (row col : Nat) (style : Style) :
    ∀ (bytes : Bytes) (grid : Grid) (index : Nat), col + index ≤ machine.highest.toNat →
      grid.writeFrom? machine row col style index bytes =
        some (grid.putBytes row (col + index) style bytes)
  | [], _, _, _ => rfl
  | byte :: rest, grid, index, h => by
    rw [writeFrom?, putBytes, Width.word?_bind, if_pos h, tryPut?_eq]
    by_cases hon : row < height ∧ col + index < width
    · -- The next column is at most the width of the screen.
      have hscreen : width ≤ machine.highest.toNat := by cases machine <;> decide
      rw [put?_of_on hon]
      dsimp only [Option.bind_eq_bind, Option.bind_some]
      rw [if_pos rfl, writeFrom?_eq machine row col style rest _ (index + 1) (by omega)]
      rfl
    · rw [put?_of_off hon]
      rfl

theorem writeText?_eq {machine : Width} {col : Nat} (hcol : col ≤ machine.highest.toNat)
    (grid : Grid) (row : Nat) (text : String) (style : Style) :
    grid.writeText? machine row col text style = some (grid.putText row col text style) :=
  writeFrom?_eq machine row col style (Log.textBytes text) grid 0 hcol

/-- A text is written up to the end of its row, whatever machine word its column is, without an
overflow or a store outside the cells. Each cell that is written shows its byte in the style of the
text, and every other cell keeps its value. -/
theorem putText_clips {machine : Width} {col : Nat} (hcol : col ≤ machine.highest.toNat)
    (grid : Grid) (row : Nat) (text : String) (style : Style) :
    ∃ after n, grid.putText row col text style = (after, n) ∧
      grid.writeText? machine row col text style = some (after, n) ∧
      n = (if row < height ∧ col < width then min text.utf8ByteSize (width - col) else 0) ∧
      (∀ i < n, ∃ byte, (Log.textBytes text)[i]? = some byte ∧
        after.shown? row (col + i) = some ⟨byte, style⟩) ∧
      ∀ r c, ¬(r = row ∧ col ≤ c ∧ c < col + n) → after.cell? r c = grid.cell? r c := by
  obtain ⟨hcount, hholds⟩ := putBytes_spec row style (Log.textBytes text) grid col
  have hsize : (Log.textBytes text).length = text.utf8ByteSize := rfl
  have hlength : ((Log.textBytes text).take (room row col)).length =
      (grid.putBytes row col style (Log.textBytes text)).2 := by
    rw [List.length_take, Nat.min_comm]
    exact hcount.symm
  refine ⟨_, _, rfl, writeText?_eq hcol grid row text style, ?_, fun i hi => ?_,
    fun r c hapart => ?_⟩
  · rw [hcount, hsize, room]
    split
    · rfl
    · exact Nat.min_zero _
  · rw [← hlength] at hi
    have hbyte := List.getElem?_eq_getElem hi
    refine ⟨_, ?_, hholds.cell i _ hbyte⟩
    rw [← hbyte, List.getElem?_take_of_lt (Nat.lt_of_lt_of_le hi (List.length_take_le _ _))]
  · rw [← hlength] at hapart
    exact hholds.rest r c hapart

/-- Two of three characters fit at the end of a row, and at the highest column there is none that
overflows. -/
theorem putText_clips_at_ends :
    78 ≤ Width.native.highest.toNat ∧ Width.native.highest.toNat ≤ Width.native.highest.toNat ∧
      ∀ (grid : Grid) (style : Style),
        (∃ after, grid.writeText? .native 3 78 "abc" style = some (after, 2) ∧
          after.shown? 3 79 = some ⟨0x62, style⟩ ∧ after.cell? 4 0 = grid.cell? 4 0) ∧
        ∃ after, grid.writeText? .native 3 Width.native.highest.toNat "abc" style =
          some (after, 0) := by
  have hlow : 78 ≤ Width.native.highest.toNat := by decide
  have hhigh : Width.native.highest.toNat ≤ Width.native.highest.toNat := Nat.le_refl _
  refine ⟨hlow, hhigh, fun grid style => ⟨?_, ?_⟩⟩
  · obtain ⟨after, n, -, hwrite, hn, hcells, hrest⟩ := putText_clips hlow grid 3 "abc" style
    obtain rfl : n = 2 := hn
    obtain ⟨byte, hbyte, hcell⟩ := hcells 1 (by decide)
    obtain rfl : (0x62 : UInt8) = byte := Option.some.inj hbyte
    exact ⟨after, hwrite, hcell, hrest 4 0 (by decide)⟩
  · obtain ⟨after, n, -, hwrite, hn, -, -⟩ := putText_clips hhigh grid 3 "abc" style
    obtain rfl : n = 0 := hn
    exact ⟨after, hwrite⟩

end Grid

end Chainload.Screen
