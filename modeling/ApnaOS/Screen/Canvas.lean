import ApnaOS.Screen.Console

/-!
# The screen as a window of a canvas

What the screen is for: text on rows without end, of which it shows the last 25 that the
cursor has reached.
-/

set_option autoImplicit false

namespace ApnaOS.Screen

open ApnaOS.StringOps (Byte Bytes)

/-- Cells on rows without end, and the place of the next character. -/
structure Canvas where
  cell : Nat → Nat → Byte × Byte
  row : Nat
  col : Nat

namespace Canvas

def newline (canvas : Canvas) : Canvas := { canvas with row := canvas.row + 1, col := 0 }

def write (canvas : Canvas) (c : Byte) : Canvas :=
  { canvas with cell := fun row col =>
      if row = canvas.row ∧ col = canvas.col then (c, 0x07) else canvas.cell row col }

/-- After a newline and after column 79 the cursor goes to the next row. -/
def put (canvas : Canvas) (c : Byte) : Canvas :=
  if c = 10 then canvas.newline
  else if canvas.col + 1 = vgaWidth then (canvas.write c).newline
  else { canvas.write c with col := canvas.col + 1 }

def print (canvas : Canvas) (message : List Byte) : Canvas := message.foldl put canvas

def ofScreen (screen : Vga) : Canvas where
  cell row col := if row < vgaHeight then screen.cell row col else (32, 0x07)
  row := screen.vgaRow
  col := screen.vgaCol

def top (canvas : Canvas) : Nat := canvas.row - (vgaHeight - 1)

end Canvas

/-- The screen shows the window of the canvas that ends with the cursor's row, or its first
25 rows. -/
structure Window (canvas : Canvas) (screen : Vga) : Prop where
  row : screen.vgaRow = min canvas.row (vgaHeight - 1)
  col : screen.vgaCol = canvas.col
  cells : ∀ row col, row < vgaHeight → col < vgaWidth →
    screen.cell row col = canvas.cell (canvas.top + row) col

/-- A window of a canvas that is blank below it. -/
structure Simulates (canvas : Canvas) (screen : Vga) : Prop where
  window : Window canvas screen
  narrow : canvas.col < vgaWidth
  blank : ∀ row col, vgaHeight ≤ row → canvas.row < row → col < vgaWidth →
    canvas.cell row col = (32, 0x07)

theorem ofScreen_simulates {screen : Vga} (row : screen.vgaRow < vgaHeight)
    (col : screen.vgaCol < vgaWidth) : Simulates (.ofScreen screen) screen where
  window :=
    { row := (Nat.min_eq_left (Nat.le_sub_one_of_lt row)).symm
      col := rfl
      cells := by
        intro row' col' bound _
        have first : (Canvas.ofScreen screen).top = 0 :=
          Nat.sub_eq_zero_of_le (Nat.le_sub_one_of_lt row)
        rw [first, Nat.zero_add]
        exact (if_pos bound).symm }
  narrow := col
  blank := by
    intro row' col' below _ _
    exact if_neg (Nat.not_lt.mpr below)

/-! ## One character -/

theorem Simulates.write {canvas : Canvas} {screen : Vga} (simulates : Simulates canvas screen)
    (c : Byte) {row col : Nat} (bound : row < vgaHeight) (inside : col < vgaWidth) :
    (screen.setCell screen.vgaRow screen.vgaCol (c, 0x07)).cell row col =
      (canvas.write c).cell (canvas.top + row) col := by
  have narrow := simulates.narrow
  have window := simulates.window
  have place : canvas.top + row = canvas.row ↔ row = screen.vgaRow := by
    rw [window.row, Canvas.top]
    omega
  rw [Vga.cell_setCell _ _ (by rw [window.col]; exact narrow) inside, Canvas.write]
  apply if_congr
  · rw [place, window.col]
  · rfl
  · exact window.cells row col bound inside

theorem Simulates.lineFeed {canvas : Canvas} {screen : Vga} (simulates : Simulates canvas screen) :
    Simulates canvas.newline screen.lineFeed := by
  have window := simulates.window
  have row := window.row
  have next : increment16 screen.vgaRow = screen.vgaRow + 1 :=
    Vga.increment16_small (by unfold vgaHeight at row; unfold vgaWidth; omega)
  have blank : ∀ row col, vgaHeight ≤ row → canvas.newline.row < row → col < vgaWidth →
      canvas.newline.cell row col = (32, 0x07) := by
    intro row' col' below beyond inside
    exact simulates.blank row' col' below (Nat.lt_of_succ_lt beyond) inside
  have advanced : canvas.newline.row = canvas.row + 1 := rfl
  refine ⟨?_, Nat.zero_lt_succ 79, blank⟩
  rw [Vga.lineFeed]
  dsimp only
  rw [next]
  by_cases last : screen.vgaRow + 1 ≥ vgaHeight
  · rw [if_pos last]
    have low : vgaHeight - 1 ≤ canvas.row := by omega
    constructor
    · show vgaHeight - 1 = min canvas.newline.row (vgaHeight - 1)
      omega
    · rfl
    · intro row' col' bound inside
      have moved : canvas.newline.top = canvas.top + 1 := by
        rw [Canvas.top, Canvas.top, advanced]
        omega
      rw [Vga.cell_scrollScreen _ bound inside, moved]
      by_cases bottom : row' = vgaHeight - 1
      · have fresh : canvas.top + 1 + row' = canvas.row + 1 := by
          rw [Canvas.top, bottom]
          omega
        rw [if_pos bottom, fresh]
        exact (simulates.blank _ col' (by omega) (Nat.lt_succ_self _) inside).symm
      · rw [if_neg bottom]
        have source := window.cells (row' + 1) col' (by omega) inside
        rw [Nat.add_right_comm, Nat.add_assoc]
        exact source
  · rw [if_neg last]
    constructor
    · show screen.vgaRow + 1 = min canvas.newline.row (vgaHeight - 1)
      omega
    · rfl
    · intro row' col' bound inside
      have still : canvas.newline.top = canvas.top := by
        rw [Canvas.top, Canvas.top, advanced]
        omega
      rw [still]
      exact window.cells row' col' bound inside

theorem lineFeed_stores (screen : Vga) :
    ∀ offset ∈ screen.lineFeed.stores, offset ∈ screen.stores ∨ offset < vgaSize := by
  rw [Vga.lineFeed]
  dsimp only
  split
  · exact Vga.scrollScreen_stores _
  · exact fun offset member => Or.inl member

theorem Simulates.written {canvas : Canvas} {screen : Vga} (simulates : Simulates canvas screen)
    (c : Byte) : Simulates (canvas.write c)
      (screen.setCell screen.vgaRow screen.vgaCol (c, 0x07)) where
  window :=
    { row := simulates.window.row
      col := simulates.window.col
      cells := fun _ _ bound inside => simulates.write c bound inside }
  narrow := simulates.narrow
  blank := by
    intro row col below beyond inside
    have elsewhere : ¬ (row = canvas.row ∧ col = canvas.col) := by
      rintro ⟨same, _⟩
      exact Nat.lt_irrefl _ (same ▸ beyond)
    exact (if_neg elsewhere).trans (simulates.blank row col below beyond inside)

theorem Simulates.put {canvas : Canvas} {screen : Vga} (simulates : Simulates canvas screen)
    (c : Byte) : Simulates (canvas.put c) (screen.putchar c) := by
  have narrow := simulates.narrow
  have window := simulates.window
  have row : screen.vgaRow < vgaHeight := by
    have least := window.row
    unfold vgaHeight at *
    omega
  rw [Canvas.put]
  by_cases newline : c = 10
  · rw [if_pos newline, newline, Vga.putchar_newline]
    exact simulates.lineFeed
  rw [if_neg newline]
  by_cases full : canvas.col + 1 = vgaWidth
  · rw [if_pos full, Vga.putchar_wraps newline (by rw [window.col]; exact full)]
    exact (simulates.written c).lineFeed
  · have room : screen.vgaCol + 1 < vgaWidth := by
      rw [window.col]
      omega
    rw [if_neg full, Vga.putchar_inside newline row room]
    have written := simulates.written c
    constructor
    · constructor
      · exact written.window.row
      · exact congrArg (· + 1) window.col
      · exact written.window.cells
    · show canvas.col + 1 < vgaWidth
      omega
    · exact written.blank

theorem putchar_stores {screen : Vga} (row : screen.vgaRow < vgaHeight)
    (col : screen.vgaCol < vgaWidth) (c : Byte) :
    ∀ offset ∈ (screen.putchar c).stores, offset ∈ screen.stores ∨ offset < vgaSize := by
  have painted := (Vga.setCell_paints screen (c, 0x07) row col).stores
  by_cases newline : c = 10
  · rw [newline, Vga.putchar_newline]
    exact lineFeed_stores screen
  by_cases full : screen.vgaCol + 1 = vgaWidth
  · rw [Vga.putchar_wraps newline full]
    intro offset member
    rcases lineFeed_stores _ offset member with earlier | inside
    · exact painted offset earlier
    · exact Or.inr inside
  · rw [Vga.putchar_inside newline row (by omega)]
    exact painted

/-! ## A whole message -/

theorem Simulates.bounds {canvas : Canvas} {screen : Vga} (simulates : Simulates canvas screen) :
    screen.vgaRow < vgaHeight ∧ screen.vgaCol < vgaWidth := by
  have row := simulates.window.row
  constructor
  · unfold vgaHeight at *
    omega
  · rw [simulates.window.col]
    exact simulates.narrow

theorem Simulates.print {canvas : Canvas} {screen : Vga} (simulates : Simulates canvas screen)
    (message : List Byte) : Simulates (canvas.print message) (screen.printToScreen message) := by
  induction message generalizing canvas screen with
  | nil => exact simulates
  | cons c rest ih => exact ih (simulates.put c)

theorem Simulates.print_stores {canvas : Canvas} {screen : Vga}
    (simulates : Simulates canvas screen) (message : List Byte) :
    ∀ offset ∈ (screen.printToScreen message).stores,
      offset ∈ screen.stores ∨ offset < vgaSize := by
  induction message generalizing canvas screen with
  | nil => exact fun offset member => Or.inl member
  | cons c rest ih =>
      intro offset member
      obtain ⟨row, col⟩ := simulates.bounds
      rcases ih (simulates.put c) offset member with earlier | inside
      · exact putchar_stores row col c offset earlier
      · exact Or.inr inside

/-- Printing on the screen is printing on a canvas seen through a window: all stores are in
the video memory, the cursor stays on the screen, and the rows are those of the window. -/
theorem print_refines_canvas (screen : Vga) (row : screen.vgaRow ≤ 24) (col : screen.vgaCol ≤ 79)
    (message : List Byte) :
    (∀ offset ∈ (screen.printToScreen message).stores,
        offset ∈ screen.stores ∨ offset < 80 * 25 * 2) ∧
      (screen.printToScreen message).vgaRow ≤ 24 ∧ (screen.printToScreen message).vgaCol ≤ 79 ∧
      Window ((Canvas.ofScreen screen).print message) (screen.printToScreen message) := by
  have start : Simulates (.ofScreen screen) screen :=
    ofScreen_simulates (Nat.lt_succ_of_le row) (Nat.lt_succ_of_le col)
  have printed := start.print message
  obtain ⟨row', col'⟩ := printed.bounds
  exact ⟨start.print_stores message, Nat.le_of_lt_succ row', Nat.le_of_lt_succ col', printed.window⟩

def lastCell : Vga := ⟨fun _ => 0, 24, 79, []⟩

/-- A character that wraps on the last row, and a newline right after it. -/
theorem print_refines_canvas_at_end :
    (∀ offset ∈ (lastCell.printToScreen [97, 10]).stores,
        offset ∈ lastCell.stores ∨ offset < 80 * 25 * 2) ∧
      (lastCell.printToScreen [97, 10]).vgaRow ≤ 24 ∧
      (lastCell.printToScreen [97, 10]).vgaCol ≤ 79 ∧
      Window ((Canvas.ofScreen lastCell).print [97, 10]) (lastCell.printToScreen [97, 10]) :=
  print_refines_canvas lastCell (by decide) (by decide) [97, 10]

end ApnaOS.Screen
