import Chainload.Screen.Page

/-!
# A screen that scrolls

Whatever is written with a cursor, the screen shows a window of an endless page on which nothing
scrolls (`Shows`). The relation holds at the start and is kept by each stroke (`Shows.nextRow`,
`Shows.put`), hence by every run of calls.

On the page a cell changes only if a character is laid down in it (`Page.Entered.foldl_draw`), and
that does not happen to the cells behind the cursor (`Page.Passed.spares`). So no byte of a text is
lost, a row keeps the spaces that it was entered with (`Page.exists_enters`), and a line takes as
many rows as it fills (`Page.drawLine_row`).
-/

namespace Chainload.Screen

/-! ## What is asked of a cursor -/

/-- What the owner of a cursor asks for. -/
inductive Call
  | text (s : String)
  | byte (b : UInt8)
  | style (s : Style)
  deriving DecidableEq, Repr

/-- One step of writing. -/
inductive Stroke
  | byte (b : UInt8)
  | style (s : Style)
  deriving DecidableEq, Repr

/-- What a character looks like: it is its own code from space to tilde, a newline too, and every
other character is a block. -/
def glyph (c : Char) : UInt8 :=
  if c = '\n' ∨ 0x20 ≤ c.toNat ∧ c.toNat ≤ 0x7E then UInt8.ofNat c.toNat else 0xFE

/-- The strokes of a call, one byte for each character of a text. -/
def Call.strokes : Call → List Stroke
  | .text s => s.toList.map fun c => .byte (glyph c)
  | .byte b => [.byte b]
  | .style s => [.style s]

/-- The cursor after a call. -/
def Cursor.perform (cursor : Cursor) : Call → Cursor
  | .text s => cursor.feedText s
  | .byte b => cursor.feed b
  | .style s => cursor.withStyle s

/-- The cursor after one step. -/
def Cursor.draw (cursor : Cursor) : Stroke → Cursor
  | .byte b => cursor.feed b
  | .style s => cursor.withStyle s

/-- The page after one step. -/
def Page.draw (page : Page) : Stroke → Page
  | .byte b => page.feed b
  | .style s => page.withStyle s

theorem byteOf_eq_glyph (c : Char) : Cursor.byteOf c = glyph c := by
  have hrange : (' ' ≤ c ∧ c ≤ '~') ↔ (0x20 ≤ c.toNat ∧ c.toNat ≤ 0x7E) := Iff.rfl
  unfold Cursor.byteOf glyph
  by_cases hnewline : c = '\n'
  · subst hnewline
    rfl
  · simp only [hnewline, if_false, false_or, hrange]
    rfl

/-- A call is made of its strokes. -/
theorem Cursor.perform_eq_foldl (cursor : Cursor) (call : Call) :
    cursor.perform call = call.strokes.foldl Cursor.draw cursor := by
  cases call with
  | byte b => rfl
  | style s => rfl
  | text s =>
    simp only [perform, feedText, Call.strokes, List.foldl_map, draw, byteOf_eq_glyph]

theorem Cursor.foldl_perform (cursor : Cursor) (calls : List Call) :
    calls.foldl Cursor.perform cursor = (calls.flatMap Call.strokes).foldl Cursor.draw cursor := by
  induction calls generalizing cursor with
  | nil => rfl
  | cons call rest ih =>
    rw [List.foldl_cons, ih, perform_eq_foldl, List.flatMap_cons, List.foldl_append]

/-! ## The window of a page -/

/-- The screen shows the window of the page, and both are written at the same place and in the same
style. -/
structure Shows (cursor : Cursor) (page : Page) : Prop where
  cell : ∀ row col, row < height ∧ col < width →
    cursor.grid.shown? row col = page.window row col
  row : cursor.row = min page.row (height - 1)
  col : cursor.col = page.col
  col_le : page.col ≤ width
  style : cursor.style = page.style

namespace Shows

variable {cursor : Cursor} {page : Page}

theorem withStyle (h : Shows cursor page) (style : Style) :
    Shows (cursor.withStyle style) (page.withStyle style) :=
  ⟨h.cell, h.row, h.col, h.col_le, rfl⟩

/-- In the next row the window follows, once the last row of the screen was reached. -/
theorem nextRow (h : Shows cursor page) : Shows cursor.nextRow page.nextRow := by
  have hrow : cursor.row = min page.row 24 := h.row
  by_cases hroom : cursor.row + 1 < height
  · have hbelow : page.row + 1 < 25 := by
      unfold height at hroom
      omega
    have htop : page.nextRow.top = page.top := by
      simp only [Page.top, Page.nextRow, height]
      omega
    rw [Cursor.nextRow, if_pos hroom]
    refine ⟨fun row col hon => (h.cell row col hon).trans ?_, ?_, rfl, Nat.zero_le _, h.style⟩
    · rw [Page.window, Page.window, htop]
      refine (if_neg fun hnew : _ = page.row + 1 ∧ 25 ≤ _ ∧ _ => ?_).symm
      omega
    · show cursor.row + 1 = min (page.row + 1) 24
      omega
  · have hbelow : 24 ≤ page.row := by
      unfold height at hroom
      omega
    have htop : page.nextRow.top = page.top + 1 := by
      simp only [Page.top, Page.nextRow, height]
      omega
    have hlast : page.top + 24 = page.row := Nat.sub_add_cancel hbelow
    rw [Cursor.nextRow, if_neg hroom]
    refine ⟨fun row col hon => ?_, ?_, rfl, Nat.zero_le _, h.style⟩
    · have hwindow : page.nextRow.window row col =
          if page.top + (row + 1) = page.row + 1 ∧ height ≤ page.top + (row + 1) ∧ col < width then
            some ⟨0x20, page.style⟩ else page.window (row + 1) col := by
        rw [Page.window, htop, Nat.add_assoc, Nat.add_comm 1 row]
        rfl
      show (cursor.grid.scroll cursor.style).shown? row col = page.nextRow.window row col
      rw [Grid.shown?_scroll _ _ hon, hwindow, h.style]
      by_cases hnext : row + 1 < height
      · have hold : row + 1 < 25 := hnext
        rw [if_pos hnext, if_neg (by omega)]
        exact h.cell (row + 1) col ⟨hnext, hon.2⟩
      · have hnew : page.top + (row + 1) = page.row + 1 ∧ 25 ≤ page.top + (row + 1) := by
          unfold height at hon hnext
          omega
        rw [if_neg hnext, if_pos ⟨hnew.1, hnew.2, hon.2⟩]
    · show cursor.row = min (page.row + 1) 24
      omega

/-- A character goes to the same cell of screen and page, if the row has room for it. -/
theorem put (h : Shows cursor page) (byte : UInt8) (hroom : page.col < width) :
    Shows (cursor.put byte) (page.put byte) := by
  have hrow : cursor.row = min page.row 24 := h.row
  have hon : cursor.row < height ∧ cursor.col < width :=
    ⟨by unfold height; omega, by rw [h.col]; exact hroom⟩
  have hput : cursor.grid.put? cursor.row cursor.col byte cursor.style = some _ :=
    Grid.put?_of_on hon
  refine ⟨fun row col hcell => ?_, h.row, congrArg (· + 1) h.col, hroom, h.style⟩
  have hsame : row = cursor.row ∧ col = cursor.col ↔
      page.top + row = page.row ∧ col = page.col := by
    simp only [h.col, Page.top, height] at hcell ⊢
    omega
  have hwindow : (page.put byte).window row col =
      if page.top + row = page.row ∧ col = page.col then some ⟨byte, page.style⟩
      else page.window row col := rfl
  rw [Cursor.put, hput, Option.getD_some, Grid.shown?_put? hput, hwindow, h.style]
  exact ite_congr (propext hsame) (fun _ => rfl) fun _ => h.cell row col hcell

/-- The relation is kept by each byte. -/
theorem feed (h : Shows cursor page) (byte : UInt8) :
    Shows (cursor.feed byte) (page.feed byte) := by
  unfold Cursor.feed Page.feed
  by_cases hnewline : byte = Cursor.newline
  · rw [if_pos hnewline, if_pos hnewline]
    exact h.nextRow
  rw [if_neg hnewline, if_neg hnewline, h.col]
  by_cases hfull : page.col = width
  · rw [if_pos (Nat.le_of_eq hfull.symm), Page.ready, if_pos hfull]
    exact h.nextRow.put byte (show 0 < 80 by decide)
  · have hroom : page.col < width := Nat.lt_of_le_of_ne h.col_le hfull
    rw [if_neg (Nat.not_le.mpr hroom), Page.ready, if_neg hfull]
    exact h.put byte hroom

theorem draw (h : Shows cursor page) (stroke : Stroke) :
    Shows (cursor.draw stroke) (page.draw stroke) := by
  cases stroke with
  | byte b => exact h.feed b
  | style s => exact h.withStyle s

/-- The relation is kept by a whole run. -/
theorem foldl_draw (h : Shows cursor page) (strokes : List Stroke) :
    Shows (strokes.foldl Cursor.draw cursor) (strokes.foldl Page.draw page) := by
  induction strokes generalizing cursor page with
  | nil => exact h
  | cons stroke rest ih => exact ih (h.draw stroke)

/-- At the start of a row a screen shows the page that starts with it. -/
theorem atRow (grid : Grid) (row : Nat) (style : Style) :
    Shows ((Cursor.ofGrid grid style).atRow row)
      (Page.ofGrid grid (min row (height - 1)) style) := by
  refine ⟨fun r c _ => ?_, ?_, rfl, Nat.zero_le _, rfl⟩
  · have htop : (Page.ofGrid grid (min row (height - 1)) style).top = 0 := by
      show min row 24 - 24 = 0
      omega
    rw [Page.window, htop, Nat.zero_add]
    rfl
  · show min row 24 = min (min row 24) 24
    omega

end Shows

/-! ## Where characters are laid down -/

namespace Page

variable {page : Page} {row col : Nat} {b : UInt8} {stroke : Stroke} {strokes : List Stroke}

theorem feed_of_ne (hb : b ≠ Cursor.newline) (page : Page) : page.feed b = page.ready.put b :=
  if_neg hb

theorem feed_position (hb : b ≠ Cursor.newline) (page : Page) :
    (page.feed b).row = page.ready.row ∧ (page.feed b).col = page.ready.col + 1 := by
  rw [feed_of_ne hb]
  exact ⟨rfl, rfl⟩

theorem ready_style (page : Page) : page.ready.style = page.style := by
  unfold ready
  split <;> rfl

theorem ready_col_lt (h : page.col ≤ width) : page.ready.col < width := by
  unfold ready
  split
  case isTrue => exact show 0 < 80 by decide
  case isFalse hne => exact Nat.lt_of_le_of_ne h hne

/-- Where a stroke lays a character down, if it does. -/
def lands? (page : Page) : Stroke → Option (Nat × Nat)
  | .byte b => if b = Cursor.newline then none else some (page.ready.row, page.ready.col)
  | .style _ => none

/-- None of the strokes lays a character down in the cell. -/
def Spares (page : Page) (strokes : List Stroke) (row col : Nat) : Prop :=
  ∀ before stroke behind, strokes = before ++ stroke :: behind →
    (before.foldl draw page).lands? stroke ≠ some (row, col)

theorem Spares.head (h : page.Spares (stroke :: strokes) row col) :
    page.lands? stroke ≠ some (row, col) :=
  h [] stroke strokes rfl

theorem Spares.tail (h : page.Spares (stroke :: strokes) row col) :
    (page.draw stroke).Spares strokes row col := by
  rintro before stroke' behind rfl
  exact h (stroke :: before) stroke' behind rfl

/-- A character changes only the cell that it is laid down in. -/
theorem feed_cells (hb : b ≠ Cursor.newline) (hspares : page.lands? (.byte b) ≠ some (row, col)) :
    (page.feed b).cells row col = page.ready.cells row col := by
  rw [feed_of_ne hb]
  refine if_neg fun hlanded => hspares ?_
  rw [lands?, if_neg hb, hlanded.1, hlanded.2]

/-- A stroke goes on by one row at most. -/
theorem draw_row (page : Page) (stroke : Stroke) :
    (page.draw stroke).row = page.row ∨ (page.draw stroke).row = page.row + 1 := by
  cases stroke with
  | style s => exact Or.inl rfl
  | byte b =>
    show (page.feed b).row = page.row ∨ (page.feed b).row = page.row + 1
    unfold feed ready
    split
    · exact Or.inr rfl
    split
    · exact Or.inr rfl
    · exact Or.inl rfl

/-- The row belongs to the first screen or was entered. -/
def Entered (page : Page) (row : Nat) : Prop :=
  row < height ∨ row ≤ page.row

theorem Entered.nextRow_cells (h : page.Entered row) :
    page.nextRow.cells row col = page.cells row col :=
  if_neg fun hnew : row = page.row + 1 ∧ height ≤ row ∧ col < width => by
    unfold Entered at h
    omega

/-- Where no character is laid down, a row that was entered stays as it is. -/
theorem Entered.draw (h : page.Entered row) (hspares : page.lands? stroke ≠ some (row, col)) :
    (page.draw stroke).Entered row ∧ (page.draw stroke).cells row col = page.cells row col := by
  have hrow := page.draw_row stroke
  refine ⟨h.imp_right fun hle => by omega, ?_⟩
  cases stroke with
  | style s => rfl
  | byte b =>
    show (page.feed b).cells row col = page.cells row col
    by_cases hb : b = Cursor.newline
    · rw [feed, if_pos hb]
      exact h.nextRow_cells
    · rw [feed_cells hb hspares]
      unfold ready
      split
      · exact h.nextRow_cells
      · rfl

theorem Entered.foldl_draw (h : page.Entered row) (hspares : page.Spares strokes row col) :
    (strokes.foldl Page.draw page).cells row col = page.cells row col := by
  induction strokes generalizing page with
  | nil => rfl
  | cons stroke rest ih =>
    have hstep := h.draw hspares.head
    exact (ih hstep.1 hspares.tail).trans hstep.2

/-! ## What stays on a page -/

/-- The cell lies behind the place that is written next. -/
def Passed (page : Page) (row col : Nat) : Prop :=
  row < page.row ∨ row = page.row ∧ col < page.col

theorem Passed.entered (h : page.Passed row col) : page.Entered row :=
  Or.inr (h.elim Nat.le_of_lt fun hlast => Nat.le_of_eq hlast.1)

theorem Passed.nextRow (h : page.Passed row col) : page.nextRow.Passed row col :=
  Or.inl (Nat.lt_succ_of_le (h.elim Nat.le_of_lt fun hlast => Nat.le_of_eq hlast.1))

theorem Passed.ready (h : page.Passed row col) : page.ready.Passed row col := by
  unfold Page.ready
  split
  · exact h.nextRow
  · exact h

theorem Passed.put (h : page.Passed row col) (byte : UInt8) : (page.put byte).Passed row col :=
  h.imp_right fun hlast => ⟨hlast.1, Nat.lt_succ_of_lt hlast.2⟩

theorem Passed.draw (h : page.Passed row col) (stroke : Stroke) :
    (page.draw stroke).Passed row col := by
  cases stroke with
  | style s => exact h
  | byte b =>
    show (page.feed b).Passed row col
    by_cases hb : b = Cursor.newline
    · rw [feed, if_pos hb]
      exact h.nextRow
    · rw [feed_of_ne hb]
      exact h.ready.put b

theorem Passed.foldl_draw (h : page.Passed row col) (strokes : List Stroke) :
    (strokes.foldl Page.draw page).Passed row col := by
  induction strokes generalizing page with
  | nil => exact h
  | cons stroke rest ih => exact ih (h.draw stroke)

/-- No character is laid down in a cell that was passed. -/
theorem Passed.lands_ne (h : page.Passed row col) (stroke : Stroke) :
    page.lands? stroke ≠ some (row, col) := by
  cases stroke with
  | style s => exact nofun
  | byte b =>
    by_cases hb : b = Cursor.newline
    · rw [lands?, if_pos hb]
      exact nofun
    · rw [lands?, if_neg hb]
      intro hlands
      obtain ⟨hrow, hcol⟩ := Prod.mk.inj (Option.some.inj hlands)
      have hready := h.ready
      unfold Passed at hready
      omega

theorem Passed.spares (h : page.Passed row col) (strokes : List Stroke) :
    page.Spares strokes row col :=
  fun before stroke _ _ => (h.foldl_draw before).lands_ne stroke

/-- A character is laid down in the style of the page, and its cell is passed. -/
theorem feed_lays (hb : b ≠ Cursor.newline) (page : Page) :
    (page.feed b).Passed page.ready.row page.ready.col ∧
      (page.feed b).cells page.ready.row page.ready.col = some ⟨b, page.style⟩ := by
  rw [feed_of_ne hb, ← page.ready_style]
  exact ⟨Or.inr ⟨rfl, Nat.lt_succ_self _⟩, if_pos ⟨rfl, rfl⟩⟩

/-- A row below the first screen has spaces when it is entered, in the style in force, where no
character is laid down at once. -/
theorem draw_enters (hrow : (page.draw stroke).row = page.row + 1) (hbelow : height ≤ page.row + 1)
    (hcol : col < width) (hspares : page.lands? stroke ≠ some (page.row + 1, col)) :
    (page.draw stroke).cells (page.row + 1) col = some ⟨0x20, page.style⟩ := by
  have hnext : page.nextRow.cells (page.row + 1) col = some ⟨0x20, page.style⟩ :=
    if_pos ⟨rfl, hbelow, hcol⟩
  have hstays : page.row ≠ page.row + 1 := Nat.ne_of_lt (Nat.lt_succ_self _)
  cases stroke with
  | style s => exact absurd hrow hstays
  | byte b =>
    show (page.feed b).cells (page.row + 1) col = _
    by_cases hb : b = Cursor.newline
    · rw [feed, if_pos hb]
      exact hnext
    · have hready : page.ready.row = page.row + 1 := (page.feed_position hb).1.symm.trans hrow
      rw [feed_cells hb hspares]
      unfold ready at hready ⊢
      split at hready
      case isTrue hfull => rwa [if_pos hfull]
      case isFalse => exact absurd hready hstays

/-- Each row between where a run starts and where it ends is entered with one of its strokes. Where
no character is laid down, it has spaces ever since. -/
theorem exists_enters (hspares : page.Spares strokes row col) (hcol : col < width)
    (hbelow : height ≤ row) (hstart : page.row < row)
    (hreached : row ≤ (strokes.foldl draw page).row) :
    ∃ before stroke behind, strokes = before ++ stroke :: behind ∧
      (before.foldl draw page).row + 1 = row ∧ ((before ++ [stroke]).foldl draw page).row = row ∧
      (strokes.foldl draw page).cells row col =
        some ⟨0x20, (before.foldl draw page).style⟩ := by
  induction strokes generalizing page with
  | nil => exact absurd hreached (Nat.not_le.mpr hstart)
  | cons stroke rest ih =>
    by_cases hentered : row ≤ (page.draw stroke).row
    · have hrow := page.draw_row stroke
      obtain rfl : row = page.row + 1 := by omega
      have hstep : (page.draw stroke).row = page.row + 1 := by omega
      refine ⟨[], stroke, rest, rfl, rfl, hstep, ?_⟩
      exact (Entered.foldl_draw (Or.inr hentered) hspares.tail).trans
        (draw_enters hstep hbelow hcol hspares.head)
    · obtain ⟨before, stroke', behind, rfl, henters⟩ :=
        ih hspares.tail (Nat.not_le.mp hentered) hreached
      exact ⟨stroke :: before, stroke', behind, rfl, henters⟩

/-! ## Lines -/

/-- Bytes of a line fill a row behind what it holds already, and then one row after the other. -/
theorem foldl_draw_position :
    ∀ (line : Bytes) (page : Page), 0 < page.col → page.col ≤ width → Cursor.newline ∉ line →
      ((line.map Stroke.byte).foldl draw page).row =
          page.row + (page.col + line.length - 1) / width ∧
        ((line.map Stroke.byte).foldl draw page).col =
          (page.col + line.length - 1) % width + 1
  | [], page, hpos, hle, _ => by
    have hbelow : page.col ≤ 80 := hle
    show page.row = page.row + (page.col + 0 - 1) / 80 ∧ page.col = (page.col + 0 - 1) % 80 + 1
    omega
  | b :: rest, page, hpos, hle, hline => by
    have hb := List.ne_of_not_mem_cons hline
    have hrest := List.not_mem_of_not_mem_cons hline
    obtain ⟨hrow, hcol⟩ := page.feed_position hb.symm
    have hfits := ready_col_lt hle
    have hbelow : page.col ≤ 80 := hle
    obtain ⟨ihrow, ihcol⟩ := foldl_draw_position rest (page.feed b) (by omega)
      (by omega) hrest
    rw [List.map_cons, List.foldl_cons, List.length_cons]
    show ((rest.map Stroke.byte).foldl draw (page.feed b)).row = _ ∧
      ((rest.map Stroke.byte).foldl draw (page.feed b)).col = _
    rw [ihrow, ihcol, hrow, hcol]
    unfold ready
    by_cases hfull : page.col = width
    · have heighty : page.col = 80 := hfull
      rw [if_pos hfull]
      simp only [nextRow, heighty, width]
      omega
    · rw [if_neg hfull]
      simp only [width]
      omega

/-- A line takes as many rows as its bytes fill, and at least one. -/
theorem drawLine_row {line : Bytes} (hcol : page.col = 0) (hline : Cursor.newline ∉ line) :
    (((line ++ [Cursor.newline]).map Stroke.byte).foldl draw page).row =
        page.row + max 1 ((line.length + (width - 1)) / width) ∧
      (((line ++ [Cursor.newline]).map Stroke.byte).foldl draw page).col = 0 := by
  rw [List.map_append, List.foldl_append]
  refine ⟨?_, rfl⟩
  show ((line.map Stroke.byte).foldl draw page).row + 1 = _
  cases line with
  | nil =>
    show page.row + 1 = page.row + max 1 ((0 + 79) / 80)
    omega
  | cons b rest =>
    have hb := List.ne_of_not_mem_cons hline
    have hrest := List.not_mem_of_not_mem_cons hline
    obtain ⟨hfirst, hsecond⟩ := page.feed_position hb.symm
    have hready : page.ready = page := if_neg (by rw [hcol]; decide)
    rw [hready] at hfirst hsecond
    rw [hcol] at hsecond
    have hposition := foldl_draw_position rest (page.feed b) (by omega)
      (by rw [hsecond]; exact show 0 + 1 ≤ 80 by decide) hrest
    rw [hfirst, hsecond] at hposition
    show ((rest.map Stroke.byte).foldl draw (page.feed b)).row + 1 =
      page.row + max 1 ((rest.length + 1 + 79) / 80)
    rw [hposition.1]
    simp only [width]
    omega

end Page

/-! ## Runs of calls -/

/-- The cursor after some calls, begun at a row of a screen. -/
def Cursor.after (grid : Grid) (row : Nat) (style : Style) (calls : List Call) : Cursor :=
  calls.foldl Cursor.perform ((Cursor.ofGrid grid style).atRow row)

/-- The page that the calls are begun on. -/
def Page.begun (grid : Grid) (row : Nat) (style : Style) : Page :=
  .ofGrid grid (min row (height - 1)) style

/-- The page after some strokes, begun at the same row. -/
def Page.after (grid : Grid) (row : Nat) (style : Style) (strokes : List Stroke) : Page :=
  strokes.foldl Page.draw (.begun grid row style)

theorem shows_after (grid : Grid) (row : Nat) (style : Style) (calls : List Call) :
    Shows (.after grid row style calls) (.after grid row style (calls.flatMap Call.strokes)) := by
  rw [Cursor.after, Cursor.foldl_perform]
  exact (Shows.atRow grid row style).foldl_draw _

theorem Page.after_append (grid : Grid) (row : Nat) (style : Style)
    (first second : List Stroke) :
    Page.after grid row style (first ++ second) =
      second.foldl Page.draw (.after grid row style first) :=
  List.foldl_append ..

/-- Whatever is asked for, the screen shows the window of the page around the place that is written,
and the cursor stands there. No byte is lost: each is laid down within a row, in the style in force,
and stays on the page. Where none is laid down, the first rows stay as they were, and every other
row that was reached has had spaces since a stroke entered it, in the style in force then. A newline
behind a line that fills its last row skips no row. -/
theorem after_shows_page (grid : Grid) (row : Nat) (style : Style) (calls : List Call) :
    let strokes := calls.flatMap Call.strokes
    let page := Page.after grid row style
    Shows (.after grid row style calls) (page strokes) ∧
    (∀ before b behind, strokes = before ++ .byte b :: behind → b ≠ Cursor.newline →
      (page before).ready.col < width ∧
        (page strokes).cells (page before).ready.row (page before).ready.col =
          some ⟨b, (page before).style⟩) ∧
    (∀ r c, c < width → (Page.begun grid row style).Spares strokes r c →
      (r < height → (page strokes).cells r c = grid.shown? r c) ∧
      (height ≤ r → r ≤ (page strokes).row →
        ∃ before stroke behind, strokes = before ++ stroke :: behind ∧
          (page before).row + 1 = r ∧ (page (before ++ [stroke])).row = r ∧
          (page strokes).cells r c = some ⟨0x20, (page before).style⟩)) ∧
    ∀ line : Bytes, Cursor.newline ∉ line → (page strokes).col = 0 →
      (page (strokes ++ (line ++ [Cursor.newline]).map .byte)).row =
          (page strokes).row + max 1 ((line.length + (width - 1)) / width) ∧
        (page (strokes ++ (line ++ [Cursor.newline]).map .byte)).col = 0 := by
  intro strokes page
  refine ⟨shows_after grid row style calls, fun before b behind hstrokes hb => ?_,
    fun r c hc hspares => ⟨fun hr => ?_, fun hr hreached => ?_⟩, fun line hline hcol => ?_⟩
  · have hbefore : Shows _ (page before) := (Shows.atRow grid row style).foldl_draw before
    obtain ⟨hpassed, hcell⟩ := (page before).feed_lays hb
    refine ⟨Page.ready_col_lt hbefore.col_le, ?_⟩
    show (Page.after grid row style strokes).cells _ _ = _
    rw [hstrokes, Page.after_append, List.foldl_cons]
    exact (hpassed.entered.foldl_draw (hpassed.spares behind)).trans hcell
  · exact Page.Entered.foldl_draw (Or.inl hr) hspares
  · have hstart : (Page.begun grid row style).row < r := by
      show min row 24 < r
      have hbelow : 25 ≤ r := hr
      omega
    exact Page.exists_enters hspares hc hr hstart hreached
  · show (Page.after grid row style _).row = _ ∧ (Page.after grid row style _).col = 0
    rw [Page.after_append]
    exact Page.drawLine_row hcol hline

end Chainload.Screen
