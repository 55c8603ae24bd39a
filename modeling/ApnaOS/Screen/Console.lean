import ApnaOS.Keyboard.StringOps

/-!
# The text screen of kernel.c

The video memory as bytes from `VGA_MEMORY` on, and the cursor.  The offsets of all stores
are kept beside them.  A message is the list of its characters.
-/

set_option autoImplicit false

namespace ApnaOS.Screen

open ApnaOS.StringOps (Byte Bytes)
open Function (update update_self update_of_ne)

def vgaWidth : Nat := 80
def vgaHeight : Nat := 25

/-- The bytes of one screen, a character and an attribute for each cell. -/
def vgaSize : Nat := vgaWidth * vgaHeight * 2

structure Vga where
  video : Bytes
  vgaRow : Nat
  vgaCol : Nat
  stores : List Nat

/-- `x++` on a `uint16_t`. -/
def increment16 (x : Nat) : Nat := (x + 1) % 65536

namespace Vga

/-- `video[offset] = value;` -/
def store (screen : Vga) (offset : Nat) (value : Byte) : Vga :=
  { screen with video := update screen.video offset value, stores := offset :: screen.stores }

/-- The body of the copying loop of `scroll_screen`. -/
def copyCell (row : Nat) (screen : Vga) (col : Nat) : Vga :=
  let source := (row * vgaWidth + col) * 2
  let target := ((row - 1) * vgaWidth + col) * 2
  let screen := screen.store target (screen.video source)
  screen.store (target + 1) (screen.video (source + 1))

def copyRow (screen : Vga) (row : Nat) : Vga :=
  (List.range vgaWidth).foldl (copyCell row) screen

def blankCell (screen : Vga) (col : Nat) : Vga :=
  let lastRow := (vgaHeight - 1) * vgaWidth * 2
  let screen := screen.store (lastRow + col * 2) 32
  screen.store (lastRow + col * 2 + 1) 0x07

/-- The two loops of `scroll_screen`. -/
def scrollRows (screen : Vga) : Vga :=
  let screen := (List.range' 1 (vgaHeight - 1)).foldl copyRow screen
  (List.range vgaWidth).foldl blankCell screen

def scrollScreen (screen : Vga) : Vga :=
  { screen.scrollRows with vgaRow := vgaHeight - 1, vgaCol := 0 }

def putchar (screen : Vga) (c : Byte) : Vga :=
  let screen :=
    if c = 10 then { screen with vgaRow := increment16 screen.vgaRow, vgaCol := 0 }
    else
      let offset := (screen.vgaRow * vgaWidth + screen.vgaCol) * 2
      let screen := screen.store offset c
      let screen := screen.store (offset + 1) 0x07
      let screen := { screen with vgaCol := increment16 screen.vgaCol }
      if screen.vgaCol ≥ vgaWidth then
        { screen with vgaRow := increment16 screen.vgaRow, vgaCol := 0 }
      else screen
  if screen.vgaRow ≥ vgaHeight then screen.scrollScreen else screen

def printToScreen (screen : Vga) (message : List Byte) : Vga :=
  message.foldl putchar screen

/-! ## Cells -/

def cell (screen : Vga) (row col : Nat) : Byte × Byte :=
  (screen.video ((row * vgaWidth + col) * 2), screen.video ((row * vgaWidth + col) * 2 + 1))

def setCell (screen : Vga) (row col : Nat) (value : Byte × Byte) : Vga :=
  (screen.store ((row * vgaWidth + col) * 2) value.1).store ((row * vgaWidth + col) * 2 + 1) value.2

theorem cell_setCell (screen : Vga) {row col row' col' : Nat} (value : Byte × Byte)
    (inside : col < vgaWidth) (inside' : col' < vgaWidth) :
    (screen.setCell row col value).cell row' col' =
      if row' = row ∧ col' = col then value else screen.cell row' col' := by
  simp only [cell, setCell, store]
  unfold vgaWidth at *
  by_cases same : row' = row ∧ col' = col
  · obtain ⟨rfl, rfl⟩ := same
    rw [if_pos ⟨rfl, rfl⟩, update_of_ne (by omega), update_self, update_self]
  · rw [if_neg same, update_of_ne (by omega), update_of_ne (by omega), update_of_ne (by omega),
      update_of_ne (by omega)]

theorem copyCell_eq (row : Nat) (screen : Vga) (col : Nat) :
    copyCell row screen col = screen.setCell (row - 1) col (screen.cell row col) := by
  have apart : (row * vgaWidth + col) * 2 + 1 ≠ ((row - 1) * vgaWidth + col) * 2 := by omega
  simp only [copyCell, setCell, cell, store, update_of_ne apart]

theorem blankCell_eq (screen : Vga) (col : Nat) :
    screen.blankCell col = screen.setCell (vgaHeight - 1) col (32, 0x07) := by
  have offset : (vgaHeight - 1) * vgaWidth * 2 + col * 2 =
      ((vgaHeight - 1) * vgaWidth + col) * 2 := by
    omega
  simp only [blankCell, setCell, offset]

/-! ## Painting -/

/-- Nothing but cells of the screen has been stored to, and the cursor has not moved. -/
structure Paints (screen after : Vga) : Prop where
  row : after.vgaRow = screen.vgaRow
  col : after.vgaCol = screen.vgaCol
  stores : ∀ offset ∈ after.stores, offset ∈ screen.stores ∨ offset < vgaSize

theorem Paints.refl (screen : Vga) : Paints screen screen :=
  ⟨rfl, rfl, fun _ member => Or.inl member⟩

theorem Paints.trans {screen middle after : Vga} (first : Paints screen middle)
    (second : Paints middle after) : Paints screen after where
  row := second.row.trans first.row
  col := second.col.trans first.col
  stores := by
    intro offset member
    rcases second.stores offset member with earlier | inside
    · exact first.stores offset earlier
    · exact Or.inr inside

theorem Paints.foldl {f : Vga → Nat → Vga} {cells : List Nat}
    (each : ∀ screen, ∀ i ∈ cells, Paints screen (f screen i)) (screen : Vga) :
    Paints screen (cells.foldl f screen) := by
  induction cells generalizing screen with
  | nil => exact Paints.refl screen
  | cons i rest ih =>
      obtain ⟨here, later⟩ : (∀ screen, Paints screen (f screen i)) ∧
          ∀ screen, ∀ j ∈ rest, Paints screen (f screen j) :=
        ⟨fun screen => each screen i List.mem_cons_self,
          fun screen j member => each screen j (List.mem_cons_of_mem i member)⟩
      exact (here screen).trans (ih later (f screen i))

theorem setCell_paints (screen : Vga) {row col : Nat} (value : Byte × Byte)
    (bound : row < vgaHeight) (inside : col < vgaWidth) :
    Paints screen (screen.setCell row col value) where
  row := rfl
  col := rfl
  stores := by
    intro offset member
    simp only [setCell, store, List.mem_cons] at member
    unfold vgaSize vgaHeight vgaWidth at *
    rcases member with rfl | rfl | earlier
    · exact Or.inr (by omega)
    · exact Or.inr (by omega)
    · exact Or.inl earlier

theorem copyRow_paints (screen : Vga) {row : Nat} (bound : row < vgaHeight) :
    Paints screen (screen.copyRow row) := by
  apply Paints.foldl
  intro screen col member
  rw [copyCell_eq]
  exact setCell_paints screen _ (by omega) (List.mem_range.mp member)

/-! ## scroll_screen -/

theorem cell_copyCells (screen : Vga) {row : Nat} (positive : 0 < row) (n : Nat)
    (columns : n ≤ vgaWidth) (row' col' : Nat) (inside : col' < vgaWidth) :
    ((List.range n).foldl (copyCell row) screen).cell row' col' =
      if row' = row - 1 ∧ col' < n then screen.cell row col' else screen.cell row' col' := by
  induction n generalizing row' col' with
  | zero => simp
  | succ n ih =>
      have source : ((List.range n).foldl (copyCell row) screen).cell row n = screen.cell row n := by
        rw [ih (by omega) row n (by omega), if_neg (by omega)]
      rw [List.range_succ, List.foldl_append, List.foldl_cons, List.foldl_nil, copyCell_eq,
        cell_setCell _ _ (by omega) inside, source, ih (by omega) row' col' inside]
      by_cases here : row' = row - 1 ∧ col' = n
      · rw [if_pos here, if_pos ⟨here.1, by omega⟩, here.2]
      · rw [if_neg here]
        refine if_congr ?_ rfl rfl
        omega

theorem cell_copyRow (screen : Vga) {row : Nat} (positive : 0 < row) (row' col' : Nat)
    (inside : col' < vgaWidth) : (screen.copyRow row).cell row' col' =
      if row' = row - 1 then screen.cell row col' else screen.cell row' col' := by
  rw [copyRow, cell_copyCells screen positive vgaWidth (Nat.le_refl _) row' col' inside]
  refine if_congr ?_ rfl rfl
  exact and_iff_left inside

theorem cell_copyRows (screen : Vga) (k : Nat) (row col : Nat) (inside : col < vgaWidth) :
    ((List.range' 1 k).foldl copyRow screen).cell row col =
      if row < k then screen.cell (row + 1) col else screen.cell row col := by
  induction k generalizing row with
  | zero => simp
  | succ k ih =>
      rw [List.range'_1_concat, List.foldl_append, List.foldl_cons, List.foldl_nil,
        cell_copyRow _ (by omega) row col inside, ih, ih, Nat.add_sub_cancel_left]
      by_cases here : row = k
      · subst here
        rw [if_pos rfl, if_neg (by omega), if_pos (by omega), Nat.add_comm 1 row]
      · rw [if_neg here]
        refine if_congr ?_ rfl rfl
        omega

theorem cell_blankCells (screen : Vga) (n : Nat) (columns : n ≤ vgaWidth) (row col : Nat)
    (inside : col < vgaWidth) : ((List.range n).foldl blankCell screen).cell row col =
      if row = vgaHeight - 1 ∧ col < n then (32, 0x07) else screen.cell row col := by
  induction n with
  | zero => simp
  | succ n ih =>
      rw [List.range_succ, List.foldl_append, List.foldl_cons, List.foldl_nil, blankCell_eq,
        cell_setCell _ _ (by omega) inside, ih (by omega)]
      by_cases here : row = vgaHeight - 1 ∧ col = n
      · rw [if_pos here, if_pos ⟨here.1, by omega⟩]
      · rw [if_neg here]
        refine if_congr ?_ rfl rfl
        omega

theorem cell_scrollScreen (screen : Vga) {row col : Nat} (bound : row < vgaHeight)
    (inside : col < vgaWidth) : screen.scrollScreen.cell row col =
      if row = vgaHeight - 1 then (32, 0x07) else screen.cell (row + 1) col := by
  have loops : screen.scrollScreen.cell row col = screen.scrollRows.cell row col := by
    simp only [scrollScreen, cell]
  rw [loops, scrollRows, cell_blankCells _ vgaWidth (Nat.le_refl _) row col inside,
    cell_copyRows screen (vgaHeight - 1) row col inside]
  by_cases last : row = vgaHeight - 1
  · rw [if_pos ⟨last, inside⟩, if_pos last]
  · rw [if_neg (fun both => last both.1), if_neg last, if_pos (by omega)]

theorem scrollScreen_stores (screen : Vga) :
    ∀ offset ∈ screen.scrollScreen.stores, offset ∈ screen.stores ∨ offset < vgaSize := by
  have rows : Paints screen ((List.range' 1 (vgaHeight - 1)).foldl copyRow screen) := by
    apply Paints.foldl
    intro screen row member
    have bound := List.mem_range'_1.mp member
    exact copyRow_paints screen (by unfold vgaHeight at *; omega)
  have blanks : ∀ screen : Vga,
      Paints screen ((List.range vgaWidth).foldl blankCell screen) := by
    intro screen
    apply Paints.foldl
    intro screen col member
    rw [blankCell_eq]
    exact setCell_paints screen _ (by decide) (List.mem_range.mp member)
  have whole : Paints screen screen.scrollRows := rows.trans (blanks _)
  exact whole.stores

/-! ## putchar -/

/-- What `putchar` does at the end of a line. -/
def lineFeed (screen : Vga) : Vga :=
  let screen := { screen with vgaRow := increment16 screen.vgaRow, vgaCol := 0 }
  if screen.vgaRow ≥ vgaHeight then screen.scrollScreen else screen

theorem putchar_newline (screen : Vga) : screen.putchar 10 = screen.lineFeed := rfl

theorem increment16_small {x : Nat} (small : x < vgaWidth) : increment16 x = x + 1 := by
  unfold vgaWidth at small
  exact Nat.mod_eq_of_lt (by omega)

theorem putchar_inside {screen : Vga} {c : Byte} (char : c ≠ 10)
    (row : screen.vgaRow < vgaHeight) (col : screen.vgaCol + 1 < vgaWidth) :
    screen.putchar c =
      { screen.setCell screen.vgaRow screen.vgaCol (c, 0x07) with vgaCol := screen.vgaCol + 1 } := by
  have next : increment16 screen.vgaCol = screen.vgaCol + 1 := increment16_small (by omega)
  have room : ¬ screen.vgaCol + 1 ≥ vgaWidth := by omega
  have above : ¬ screen.vgaRow ≥ vgaHeight := by omega
  simp only [putchar, if_neg char, store, next, if_neg room, if_neg above]
  rfl

theorem putchar_wraps {screen : Vga} {c : Byte} (char : c ≠ 10)
    (col : screen.vgaCol + 1 = vgaWidth) :
    screen.putchar c = (screen.setCell screen.vgaRow screen.vgaCol (c, 0x07)).lineFeed := by
  have next : increment16 screen.vgaCol = screen.vgaCol + 1 := increment16_small (by omega)
  have full : screen.vgaCol + 1 ≥ vgaWidth := by omega
  simp only [putchar, if_neg char, store, next, if_pos full]
  rfl

theorem print_append (screen : Vga) (first second : List Byte) :
    screen.printToScreen (first ++ second) =
      (screen.printToScreen first).printToScreen second :=
  List.foldl_append ..

end Vga

end ApnaOS.Screen
