import Kraftwerk.Vga.Terminal

set_option autoImplicit false

-- What the terminal is for: a page of 80 columns that never ends.
namespace Kraftwerk.Vga

open CString

structure Page where
  row : Nat
  column : Nat
  color : Byte
  cells : Nat → Nat → BitVec 16

def emptyPage : Page := ⟨0, 0, makeColor .lightGrey .black, fun _ _ => blankEntry⟩

def Page.write (entry : BitVec 16) (page : Page) : Page :=
  { page with cells := Function.update page.cells page.row (Function.update (page.cells page.row) page.column entry) }

def Page.newline (page : Page) : Page := { page with row := page.row + 1, column := 0 }

def Page.advance (page : Page) : Page := if page.column + 1 = 80 then page.newline else { page with column := page.column + 1 }

def Page.putchar (c : Byte) (page : Page) : Page :=
  if c = chr '\n' then page.newline else (page.write (makeVgaentry c page.color)).advance

-- The terminal shows the 24 rows of the page that end at the cursor, or the first 24.
structure ShowsCells (terminal : Terminal) (page : Page) : Prop where
  row : terminal.row = min page.row 23
  color : terminal.color = page.color
  window : ∀ y x, y < 24 → x < 80 → terminal.buffer (y * 80 + x) = page.cells (page.row - terminal.row + y) x
  unwritten : ∀ row x, page.row < row → page.cells row x = blankEntry

structure Shows (terminal : Terminal) (page : Page) : Prop extends ShowsCells terminal page where
  column : terminal.column = page.column
  onPage : page.column < 80

theorem fill_row_cell (row : Nat) (cell : (Nat → BitVec 16) → Nat → BitVec 16) (buffer : Nat → BitVec 16)
    (stable : ∀ changed x, x < 80 → (∀ index, index < row * 80 ∨ row * 80 + 80 ≤ index → changed index = buffer index) →
      cell changed x = cell buffer x) (index : Nat) :
    fillRow row cell buffer index =
      if row * 80 ≤ index ∧ index < row * 80 + 80 then cell buffer (index - row * 80) else buffer index := by
  have partialFill : ∀ count, count ≤ 80 → ∀ index, (List.range count).foldl
      (fun buffer x => Function.update buffer (row * vgaWidth + x) (cell buffer x)) buffer index =
        if row * 80 ≤ index ∧ index < row * 80 + count then cell buffer (index - row * 80) else buffer index := by
    intro count
    induction count with
    | zero =>
        intro _ index
        rw [if_neg (by omega)]
        rfl
    | succ count ih =>
        intro le index
        rw [List.range_succ, List.foldl_append, List.foldl_cons, List.foldl_nil, Function.update_apply, vgaWidth]
        by_cases here : index = row * 80 + count
        · rw [if_pos here, if_pos (by omega), here, Nat.add_sub_cancel_left]
          refine stable _ count (by omega) (fun other outside => ?_)
          refine (ih (by omega) other).trans (if_neg (by omega))
        · rw [if_neg here]
          refine (ih (by omega) index).trans ?_
          by_cases inside : row * 80 ≤ index ∧ index < row * 80 + count
          · rw [if_pos inside, if_pos (by omega)]
          · rw [if_neg inside, if_neg (by omega)]
  exact partialFill 80 (Nat.le_refl _) index

theorem copy_row_cell (source target : Nat) (buffer : Nat → BitVec 16) (different : source ≠ target) (y x : Nat) (inRow : x < 80) :
    copyRow source target buffer (y * 80 + x) = if y = target then buffer (source * 80 + x) else buffer (y * 80 + x) := by
  have filled := fill_row_cell target (fun buffer x => buffer (source * vgaWidth + x)) buffer
    (fun changed x below same => same _ (by unfold vgaWidth; omega)) (y * 80 + x)
  rw [copyRow, filled]
  by_cases here : y = target
  · subst here
    rw [if_pos (by omega), if_pos rfl, Nat.add_sub_cancel_left, vgaWidth]
  · rw [if_neg (by omega), if_neg here]

theorem blank_row_cell (row : Nat) (buffer : Nat → BitVec 16) (y x : Nat) (inRow : x < 80) :
    blankRow row buffer (y * 80 + x) = if y = row then blankEntry else buffer (y * 80 + x) := by
  rw [blankRow, fill_row_cell row _ buffer (fun _ _ _ _ => rfl)]
  by_cases here : y = row
  · rw [if_pos (by omega), if_pos here]
  · rw [if_neg (by omega), if_neg here]

-- Row y of the copy loop reads row y + 1 before any later step writes to it.
theorem scroll_rows_cell (buffer : Nat → BitVec 16) (count y x : Nat) (inRow : x < 80) :
    (List.range count).foldl (fun buffer y => copyRow (y + 1) y buffer) buffer (y * 80 + x) =
      if y < count then buffer ((y + 1) * 80 + x) else buffer (y * 80 + x) := by
  induction count generalizing y with
  | zero => rfl
  | succ count ih =>
      rw [List.range_succ, List.foldl_append, List.foldl_cons, List.foldl_nil,
        copy_row_cell (count + 1) count _ (by omega) y x inRow, ih, ih]
      by_cases here : y = count
      · subst here
        rw [if_pos rfl, if_neg (by omega), if_pos (by omega)]
      · rw [if_neg here]
        by_cases earlier : y < count
        · rw [if_pos earlier, if_pos (by omega)]
        · rw [if_neg earlier, if_neg (by omega)]

theorem scroll_down_cell (buffer : Nat → BitVec 16) (y x : Nat) (inHeight : y < 24) (inRow : x < 80) :
    scrollDown buffer (y * 80 + x) = if y < 23 then buffer ((y + 1) * 80 + x) else blankEntry := by
  rw [scrollDown, blank_row_cell _ _ y x inRow, scroll_rows_cell buffer _ y x inRow]
  unfold vgaHeight
  by_cases last : y = 23
  · rw [if_pos last, if_neg (by omega)]
  · rw [if_neg last, if_pos (by omega), if_pos (by omega)]

theorem next_row_shows (terminal : Terminal) (page : Page) (shows : ShowsCells terminal page) :
    Shows (nextRow terminal) page.newline := by
  have rowEq := shows.row
  by_cases bottom : page.row < 23
  · have moved : nextRow terminal = { terminal with column := 0, row := terminal.row + 1 } := by
      have below : increment terminal.row = terminal.row + 1 := by unfold increment; omega
      rw [nextRow, below]
      exact if_neg (by simp only [vgaHeight]; omega)
    rw [moved]
    refine ⟨⟨?_, shows.color, fun y x inHeight inRow => ?_, fun row x below => ?_⟩, rfl, Nat.zero_lt_succ 79⟩
    · simp only [Page.newline]
      omega
    · rw [shows.window y x inHeight inRow]
      simp only [Page.newline]
      rw [show page.row - terminal.row + y = page.row + 1 - (terminal.row + 1) + y by omega]
    · exact shows.unwritten row x (Nat.lt_of_succ_lt below)
  · have scrolled : nextRow terminal = { terminal with column := 0, row := 23, buffer := scrollDown terminal.buffer } := by
      have atBottom : terminal.row = 23 := by omega
      simp [nextRow, increment, atBottom, vgaHeight, terminalScroll]
    rw [scrolled]
    refine ⟨⟨?_, shows.color, fun y x inHeight inRow => ?_, fun row x below => ?_⟩, rfl, Nat.zero_lt_succ 79⟩
    · simp only [Page.newline]
      omega
    · simp only [Page.newline]
      rw [scroll_down_cell terminal.buffer y x inHeight inRow]
      split
      · rw [shows.window (y + 1) x (by omega) inRow]
        rw [show page.row - terminal.row + (y + 1) = page.row + 1 - 23 + y by omega]
      · exact (shows.unwritten _ x (by omega)).symm
    · exact shows.unwritten row x (Nat.lt_of_succ_lt below)

theorem putentryat_shows (terminal : Terminal) (page : Page) (c : Byte) (shows : Shows terminal page) :
    Shows (terminalPutentryat c terminal.color terminal.column terminal.row terminal)
      (page.write (makeVgaentry c page.color)) := by
  have rowEq := shows.row
  have columnEq := shows.column
  have inPage := shows.onPage
  refine ⟨⟨rowEq, shows.color, fun y x inHeight inRow => ?_, fun row x below => ?_⟩, columnEq, inPage⟩
  · simp only [terminalPutentryat, Page.write, vgaWidth, Function.update_apply, shows.color]
    rw [Nat.mod_eq_of_lt (by omega)]
    by_cases here : y = terminal.row
    · rw [if_pos (show page.row - terminal.row + y = page.row by omega)]
      by_cases same : x = page.column
      · rw [if_pos (by omega), same, Function.update_self]
      · rw [if_neg (by omega), Function.update_of_ne same, shows.window y x inHeight inRow,
          show page.row - terminal.row + y = page.row by omega]
    · rw [if_neg (by omega), if_neg (by omega)]
      exact shows.window y x inHeight inRow
  · simp only [Page.write]
    simp only [Page.write] at below
    rw [Function.update_of_ne (by omega)]
    exact shows.unwritten row x below

theorem putchar_shows (terminal : Terminal) (page : Page) (c : Byte) (shows : Shows terminal page) :
    Shows (terminalPutchar c terminal) (page.putchar c) := by
  unfold terminalPutchar Page.putchar
  split
  · exact next_row_shows terminal page shows.toShowsCells
  · have written := putentryat_shows terminal page c shows
    have columnEq := written.column
    have inPage := written.onPage
    have next : increment (terminalPutentryat c terminal.color terminal.column terminal.row terminal).column =
        (page.write (makeVgaentry c page.color)).column + 1 := by
      rw [increment, columnEq, Nat.mod_eq_of_lt (by omega)]
    simp only [next, Page.advance]
    rw [show vgaWidth = 80 from rfl]
    split
    · exact next_row_shows _ _ ⟨written.row, written.color, written.window, written.unwritten⟩
    · exact ⟨⟨written.row, written.color, written.window, written.unwritten⟩, rfl, by simp only; omega⟩

end Kraftwerk.Vga
