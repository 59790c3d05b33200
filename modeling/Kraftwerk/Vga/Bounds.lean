import Kraftwerk.Lib.Runs
import Kraftwerk.Vga.Terminal

set_option autoImplicit false

-- Which cells of terminal_buffer each function of vga.cpp writes to, and when the
-- cursor and all of these cells stay on the screen.
namespace Kraftwerk.Vga

open CString Runs

def rowWrites (row : Nat) : List Nat := (List.range vgaWidth).map (fun x => row * vgaWidth + x)

def scrollWrites (numRows : Int) : List Nat :=
  if 0 < numRows then (List.range (vgaHeight - 1)).flatMap rowWrites ++ rowWrites (vgaHeight - 1)
  else if numRows < 0 then (List.range' 1 (vgaHeight - 1)).reverse.flatMap rowWrites ++ rowWrites 0
  else []

def entryWrite (x y : Nat) : Nat := (y * vgaWidth + x) % 2 ^ 32

def nextRowWrites (row : Nat) : List Nat := if increment row = vgaHeight then scrollWrites 1 else []

def putcharWrites (c : Byte) (terminal : Terminal) : List Nat :=
  if c = chr '\n' then nextRowWrites terminal.row
  else entryWrite terminal.column terminal.row ::
    if increment terminal.column = vgaWidth then nextRowWrites terminal.row else []

def backspaceWrites (terminal : Terminal) : List Nat :=
  let column := decrement terminal.column
  if vgaWidth < column then
    if vgaHeight < decrement terminal.row then scrollWrites (-1) ++ [entryWrite column 0]
    else [entryWrite column (decrement terminal.row)]
  else [entryWrite column terminal.row]

def putAllWrites : List Byte → Terminal → List Nat
  | [], _ => []
  | c :: rest, terminal => putcharWrites c terminal ++ putAllWrites rest (terminalPutchar c terminal)

def writestringWrites (data : Str) : Nat → BitVec 32 → Terminal → List Nat
  | 0, _, _ => []
  | fuel + 1, i, terminal =>
      if data.byteAt i.toNat ≠ 0 then
        putcharWrites (data.byteAt i.toNat) terminal ++
          writestringWrites data fuel (i + 1) (terminalPutchar (data.byteAt i.toNat) terminal)
      else []

inductive Call where
  | putchar (c : Byte)
  | writestring (data : Str)
  | writestringLength (data : Nat → Byte) (datalen : BitVec 32)
  | scroll (numRows : Int)
  | backspace

def callStep (fuel : Nat) (terminal : Terminal) : Call → Option Terminal
  | .putchar c => some (terminalPutchar c terminal)
  | .writestring data => terminalWritestring fuel data terminal
  | .writestringLength data datalen => some (terminalWritestringLength data datalen terminal)
  | .scroll numRows => some (terminalScroll numRows terminal)
  | .backspace => some (terminalBackspace terminal)

-- A string that is never finished has written all of these by the time the fuel is out.
def callWrites (fuel : Nat) (terminal : Terminal) : Call → List Nat
  | .putchar c => putcharWrites c terminal
  | .writestring data => writestringWrites data fuel 0 terminal
  | .writestringLength data datalen => putAllWrites ((List.range datalen.toNat).map data) terminal
  | .scroll numRows => scrollWrites numRows
  | .backspace => backspaceWrites terminal

structure InBounds (terminal : Terminal) : Prop where
  row : terminal.row < vgaHeight
  column : terminal.column < vgaWidth

structure CallInBounds (fuel : Nat) (terminal : Terminal) (call : Call) : Prop where
  writes : ∀ index ∈ callWrites fuel terminal call, index < vgaWidth * vgaHeight
  cursor : ∀ next, callStep fuel terminal call = some next → InBounds next

theorem fold_outside {Item : Type} (store : (Nat → BitVec 16) → Item → Nat → BitVec 16) (keys : Item → List Nat)
    (outside : ∀ buffer item index, index ∉ keys item → store buffer item index = buffer index)
    (items : List Item) (buffer : Nat → BitVec 16) (index : Nat) (absent : index ∉ items.flatMap keys) :
    items.foldl store buffer index = buffer index := by
  induction items generalizing buffer with
  | nil => rfl
  | cons item rest ih =>
      simp only [List.flatMap_cons, List.mem_append, not_or] at absent
      rw [List.foldl_cons, ih _ absent.2, outside buffer item index absent.1]

theorem fill_row_outside (row : Nat) (cell : (Nat → BitVec 16) → Nat → BitVec 16) (buffer : Nat → BitVec 16) (index : Nat)
    (absent : index ∉ rowWrites row) : fillRow row cell buffer index = buffer index := by
  refine fold_outside _ (fun x => [row * vgaWidth + x]) (fun buffer x index different => ?_) _ buffer index ?_
  · exact Function.update_of_ne (by simpa using different) _ _
  · simpa [rowWrites, List.mem_flatMap, eq_comm] using absent

theorem copy_row_outside (source target : Nat) (buffer : Nat → BitVec 16) (index : Nat) (absent : index ∉ rowWrites target) :
    copyRow source target buffer index = buffer index :=
  fill_row_outside target _ buffer index absent

theorem copied_rows_outside (source : Nat → Nat) (rows : List Nat) (buffer : Nat → BitVec 16) (index : Nat)
    (absent : index ∉ rows.flatMap rowWrites) :
    rows.foldl (fun buffer y => copyRow (source y) y buffer) buffer index = buffer index :=
  fold_outside _ rowWrites (fun buffer y => copy_row_outside (source y) y buffer) rows buffer index absent

theorem scroll_outside (numRows : Int) (terminal : Terminal) (index : Nat) (absent : index ∉ scrollWrites numRows) :
    (terminalScroll numRows terminal).buffer index = terminal.buffer index := by
  unfold terminalScroll
  unfold scrollWrites at absent
  by_cases down : 0 < numRows
  · rw [if_pos down, List.mem_append, not_or] at absent
    rw [if_pos down]
    simp only [scrollDown, blankRow]
    rw [fill_row_outside _ _ _ index absent.2, copied_rows_outside (fun y => y + 1) _ _ index absent.1]
  · rw [if_neg down] at absent ⊢
    by_cases up : numRows < 0
    · rw [if_pos up, List.mem_append, not_or] at absent
      rw [if_pos up]
      simp only [scrollUp, blankRow]
      rw [fill_row_outside _ _ _ index absent.2, copied_rows_outside (fun y => y - 1) _ _ index absent.1]
    · rw [if_neg up]

theorem entry_outside (c color : Byte) (x y : Nat) (terminal : Terminal) (index : Nat) (different : index ≠ entryWrite x y) :
    (terminalPutentryat c color x y terminal).buffer index = terminal.buffer index :=
  Function.update_of_ne different _ _

theorem next_row_outside (terminal : Terminal) (index : Nat) (absent : index ∉ nextRowWrites terminal.row) :
    (nextRow terminal).buffer index = terminal.buffer index := by
  unfold nextRow
  unfold nextRowWrites at absent
  split at absent
  · rename_i full
    simp only [if_pos full]
    exact scroll_outside 1 _ index absent
  · rename_i room
    simp only [if_neg room]

theorem putchar_visible (c : Byte) (terminal : Terminal) (visible : c ≠ chr '\n') :
    terminalPutchar c terminal =
      let written := terminalPutentryat c terminal.color terminal.column terminal.row terminal
      let moved := { written with column := increment terminal.column }
      if increment terminal.column = vgaWidth then nextRow moved else moved :=
  if_neg visible

theorem putchar_outside (c : Byte) (terminal : Terminal) (index : Nat) (absent : index ∉ putcharWrites c terminal) :
    (terminalPutchar c terminal).buffer index = terminal.buffer index := by
  unfold putcharWrites at absent
  by_cases newline : c = chr '\n'
  · rw [if_pos newline] at absent
    rw [terminalPutchar, if_pos newline]
    exact next_row_outside terminal index absent
  · rw [if_neg newline, List.mem_cons, not_or] at absent
    have written := entry_outside c terminal.color terminal.column terminal.row terminal index absent.1
    have rowAbsent := absent.2
    rw [putchar_visible c terminal newline]
    by_cases full : increment terminal.column = vgaWidth
    · rw [if_pos full] at rowAbsent
      simp only [if_pos full]
      rw [next_row_outside]
      · exact written
      · exact rowAbsent
    · simp only [if_neg full]
      exact written

theorem put_all_outside (chars : List Byte) (terminal : Terminal) (index : Nat) (absent : index ∉ putAllWrites chars terminal) :
    (chars.foldl (fun terminal c => terminalPutchar c terminal) terminal).buffer index = terminal.buffer index := by
  induction chars generalizing terminal with
  | nil => rfl
  | cons c rest ih =>
      rw [putAllWrites, List.mem_append, not_or] at absent
      rw [List.foldl_cons, ih _ absent.2, putchar_outside c terminal index absent.1]

theorem writestring_outside (data : Str) (fuel : Nat) (i : BitVec 32) (terminal last : Terminal) (index : Nat)
    (done : writestringFrom data fuel i terminal = some last) (absent : index ∉ writestringWrites data fuel i terminal) :
    last.buffer index = terminal.buffer index := by
  induction fuel generalizing i terminal with
  | zero => cases done
  | succ fuel ih =>
      rw [writestringFrom] at done
      rw [writestringWrites] at absent
      split at done
      · rename_i more
        rw [if_pos more, List.mem_append, not_or] at absent
        rw [ih _ _ done absent.2, putchar_outside _ terminal index absent.1]
      · obtain rfl := Option.some.inj done
        rfl

theorem backspace_outside (terminal : Terminal) (index : Nat) (absent : index ∉ backspaceWrites terminal) :
    (terminalBackspace terminal).buffer index = terminal.buffer index := by
  unfold terminalBackspace
  unfold backspaceWrites at absent
  by_cases wrapped : vgaWidth < decrement terminal.column
  · simp only [if_pos wrapped] at absent ⊢
    by_cases top : vgaHeight < decrement terminal.row
    · simp only [if_pos top, List.mem_append, List.mem_singleton, not_or] at absent ⊢
      exact (entry_outside _ _ _ _ _ index absent.2).trans (scroll_outside (-1) _ index absent.1)
    · simp only [if_neg top, List.mem_singleton] at absent ⊢
      exact entry_outside _ _ _ _ _ index absent
  · simp only [if_neg wrapped, List.mem_singleton] at absent ⊢
    exact entry_outside _ _ _ _ _ index absent

-- The lists are complete: a call changes no cell that is not on its own list.
theorem call_changes_writes (fuel : Nat) (terminal next : Terminal) (call : Call) (index : Nat)
    (done : callStep fuel terminal call = some next) (changed : next.buffer index ≠ terminal.buffer index) :
    index ∈ callWrites fuel terminal call := by
  refine Classical.byContradiction (fun absent => changed ?_)
  cases call with
  | putchar c =>
      obtain rfl := Option.some.inj done
      exact putchar_outside c terminal index absent
  | writestring data => exact writestring_outside data fuel 0 terminal next index done absent
  | writestringLength data datalen =>
      obtain rfl := Option.some.inj done
      exact put_all_outside _ terminal index absent
  | scroll numRows =>
      obtain rfl := Option.some.inj done
      exact scroll_outside numRows terminal index absent
  | backspace =>
      obtain rfl := Option.some.inj done
      exact backspace_outside terminal index absent

theorem row_writes_in_bounds (row index : Nat) (inHeight : row < vgaHeight) (member : index ∈ rowWrites row) :
    index < vgaWidth * vgaHeight := by
  obtain ⟨x, inWidth, rfl⟩ := List.mem_map.mp member
  rw [List.mem_range] at inWidth
  unfold vgaWidth vgaHeight at *
  omega

theorem rows_writes_in_bounds (rows : List Nat) (blanked index : Nat) (inHeight : ∀ row ∈ rows, row < vgaHeight)
    (blankedInHeight : blanked < vgaHeight) (member : index ∈ rows.flatMap rowWrites ++ rowWrites blanked) :
    index < vgaWidth * vgaHeight := by
  cases List.mem_append.mp member with
  | inl copied =>
      obtain ⟨row, inRows, here⟩ := List.mem_flatMap.mp copied
      exact row_writes_in_bounds row index (inHeight row inRows) here
  | inr blank => exact row_writes_in_bounds blanked index blankedInHeight blank

theorem scroll_writes_in_bounds (numRows : Int) (index : Nat) (member : index ∈ scrollWrites numRows) :
    index < vgaWidth * vgaHeight := by
  unfold scrollWrites at member
  split at member
  · refine rows_writes_in_bounds _ _ index (fun row inRows => ?_) (by decide) member
    exact Nat.lt_of_lt_of_le (List.mem_range.mp inRows) (Nat.sub_le _ _)
  · split at member
    · refine rows_writes_in_bounds _ _ index (fun row inRows => ?_) (by decide) member
      rw [List.mem_reverse, List.mem_range'_1] at inRows
      exact inRows.2
    · cases member

theorem entry_write_in_bounds (x y : Nat) (inWidth : x < vgaWidth) (inHeight : y < vgaHeight) :
    entryWrite x y < vgaWidth * vgaHeight := by
  refine Nat.lt_of_le_of_lt (Nat.mod_le _ _) ?_
  unfold vgaWidth vgaHeight at *
  omega

theorem scroll_in_bounds (numRows : Int) (terminal : Terminal) (inBounds : InBounds terminal) :
    InBounds (terminalScroll numRows terminal) := by
  unfold terminalScroll
  split
  · exact ⟨inBounds.row, inBounds.column⟩
  · split
    · exact ⟨inBounds.row, inBounds.column⟩
    · exact inBounds

theorem scroll_column (numRows : Int) (terminal : Terminal) : (terminalScroll numRows terminal).column = terminal.column := by
  unfold terminalScroll
  split
  · rfl
  · split
    · rfl
    · rfl

theorem next_row_in_bounds (terminal : Terminal) (inHeight : terminal.row < vgaHeight) : InBounds (nextRow terminal) := by
  unfold nextRow
  by_cases full : increment terminal.row = vgaHeight
  · simp only [if_pos full]
    exact ⟨Nat.lt_succ_self 23, Nat.zero_lt_succ 79⟩
  · simp only [if_neg full]
    refine ⟨?_, Nat.zero_lt_succ 79⟩
    have le : increment terminal.row ≤ terminal.row + 1 := Nat.mod_le _ _
    exact Nat.lt_of_le_of_ne (Nat.le_trans le inHeight) full

theorem next_row_writes_in_bounds (row index : Nat) (member : index ∈ nextRowWrites row) : index < vgaWidth * vgaHeight := by
  unfold nextRowWrites at member
  split at member
  · exact scroll_writes_in_bounds 1 index member
  · cases member

theorem putchar_in_bounds (c : Byte) (terminal : Terminal) (inBounds : InBounds terminal) :
    InBounds (terminalPutchar c terminal) := by
  by_cases newline : c = chr '\n'
  · rw [terminalPutchar, if_pos newline]
    exact next_row_in_bounds terminal inBounds.row
  · rw [putchar_visible c terminal newline]
    by_cases full : increment terminal.column = vgaWidth
    · simp only [if_pos full]
      exact next_row_in_bounds _ inBounds.row
    · simp only [if_neg full]
      refine ⟨inBounds.row, ?_⟩
      have le : increment terminal.column ≤ terminal.column + 1 := Nat.mod_le _ _
      exact Nat.lt_of_le_of_ne (Nat.le_trans le inBounds.column) full

theorem putchar_writes_in_bounds (c : Byte) (terminal : Terminal) (inBounds : InBounds terminal) (index : Nat)
    (member : index ∈ putcharWrites c terminal) : index < vgaWidth * vgaHeight := by
  unfold putcharWrites at member
  split at member
  · exact next_row_writes_in_bounds _ index member
  · cases List.mem_cons.mp member with
    | inl entry => exact entry ▸ entry_write_in_bounds _ _ inBounds.column inBounds.row
    | inr later =>
        split at later
        · exact next_row_writes_in_bounds _ index later
        · cases later

theorem put_all_in_bounds (chars : List Byte) (terminal : Terminal) (inBounds : InBounds terminal) :
    InBounds (chars.foldl (fun terminal c => terminalPutchar c terminal) terminal) := by
  induction chars generalizing terminal with
  | nil => exact inBounds
  | cons c rest ih => exact ih _ (putchar_in_bounds c terminal inBounds)

theorem put_all_writes_in_bounds (chars : List Byte) (terminal : Terminal) (inBounds : InBounds terminal) (index : Nat)
    (member : index ∈ putAllWrites chars terminal) : index < vgaWidth * vgaHeight := by
  induction chars generalizing terminal with
  | nil => cases member
  | cons c rest ih =>
      cases List.mem_append.mp member with
      | inl now => exact putchar_writes_in_bounds c terminal inBounds index now
      | inr later => exact ih _ (putchar_in_bounds c terminal inBounds) later

theorem writestring_in_bounds (data : Str) (fuel : Nat) (i : BitVec 32) (terminal last : Terminal)
    (inBounds : InBounds terminal) (done : writestringFrom data fuel i terminal = some last) : InBounds last := by
  induction fuel generalizing i terminal with
  | zero => cases done
  | succ fuel ih =>
      rw [writestringFrom] at done
      split at done
      · exact ih _ _ (putchar_in_bounds _ terminal inBounds) done
      · exact Option.some.inj done ▸ inBounds

theorem writestring_writes_in_bounds (data : Str) (fuel : Nat) (i : BitVec 32) (terminal : Terminal)
    (inBounds : InBounds terminal) (index : Nat) (member : index ∈ writestringWrites data fuel i terminal) :
    index < vgaWidth * vgaHeight := by
  induction fuel generalizing i terminal with
  | zero => cases member
  | succ fuel ih =>
      rw [writestringWrites] at member
      split at member
      · cases List.mem_append.mp member with
        | inl now => exact putchar_writes_in_bounds _ terminal inBounds index now
        | inr later => exact ih _ _ (putchar_in_bounds _ terminal inBounds) later
      · cases member

-- Off column 0 the decrement is an ordinary step back and neither test fires.
theorem decrement_pos (position : Nat) (positive : 0 < position) (small : position < 2 ^ 32) :
    decrement position = position - 1 := by
  unfold decrement
  omega

theorem decrement_zero : decrement 0 = 2 ^ 32 - 1 := by
  unfold decrement
  omega

theorem backspace_column (terminal : Terminal) : (terminalBackspace terminal).column = decrement terminal.column := by
  unfold terminalBackspace
  by_cases wrapped : vgaWidth < decrement terminal.column
  · by_cases top : vgaHeight < decrement terminal.row
    · simp only [if_pos wrapped, if_pos top, terminalPutentryat]
      exact scroll_column (-1) _
    · simp only [if_pos wrapped, if_neg top, terminalPutentryat]
  · simp only [if_neg wrapped, terminalPutentryat]

theorem backspace_call_in_bounds (fuel : Nat) (terminal : Terminal) (inBounds : InBounds terminal) (off : terminal.column ≠ 0) :
    CallInBounds fuel terminal .backspace := by
  have inWidth := inBounds.column
  have back : decrement terminal.column = terminal.column - 1 :=
    decrement_pos _ (Nat.pos_of_ne_zero off) (by unfold vgaWidth at inWidth; omega)
  have within : terminal.column - 1 < vgaWidth := by omega
  have stays : ¬ vgaWidth < decrement terminal.column := by omega
  constructor
  · intro index member
    simp only [callWrites, backspaceWrites, if_neg stays, List.mem_singleton] at member
    rw [member, back]
    exact entry_write_in_bounds _ _ within inBounds.row
  · intro next done
    obtain rfl := Option.some.inj done
    constructor
    · simp only [terminalBackspace, if_neg stays, terminalPutentryat]
      exact inBounds.row
    · rw [backspace_column, back]
      exact within

-- A backspace in column 0 leaves the column at 2^32 - 1, on whatever row it lands.
theorem backspace_in_bounds_off (fuel : Nat) (terminal : Terminal) (kept : CallInBounds fuel terminal .backspace) :
    terminal.column ≠ 0 := by
  intro zero
  have inWidth := (kept.cursor _ rfl).column
  rw [backspace_column, zero, decrement_zero] at inWidth
  exact absurd inWidth (by decide)

def BackspacesOff (terminal : Terminal) (call : Call) : Prop := call = .backspace → terminal.column ≠ 0

theorem call_in_bounds (fuel : Nat) (terminal : Terminal) (call : Call) (inBounds : InBounds terminal)
    (off : BackspacesOff terminal call) : CallInBounds fuel terminal call := by
  cases call with
  | putchar c =>
      exact ⟨putchar_writes_in_bounds c terminal inBounds,
        fun next done => Option.some.inj done ▸ putchar_in_bounds c terminal inBounds⟩
  | writestring data =>
      exact ⟨writestring_writes_in_bounds data fuel 0 terminal inBounds,
        fun next done => writestring_in_bounds data fuel 0 terminal next inBounds done⟩
  | writestringLength data datalen =>
      exact ⟨put_all_writes_in_bounds _ terminal inBounds,
        fun next done => Option.some.inj done ▸ put_all_in_bounds _ terminal inBounds⟩
  | scroll numRows =>
      exact ⟨scroll_writes_in_bounds numRows, fun next done => Option.some.inj done ▸ scroll_in_bounds numRows terminal inBounds⟩
  | backspace => exact backspace_call_in_bounds fuel terminal inBounds (off rfl)

theorem initialize_in_bounds (old : Terminal) : InBounds (terminalInitialize old) :=
  ⟨Nat.zero_lt_succ 23, Nat.zero_lt_succ 79⟩

theorem cursor_in_bounds_iff (old : Terminal) (fuel : Nat) (calls : List Call) :
    InBounds (terminalInitialize old) ∧
      (Along (callStep fuel) (CallInBounds fuel) (terminalInitialize old) calls ↔
        Along (callStep fuel) BackspacesOff (terminalInitialize old) calls) := by
  refine ⟨initialize_in_bounds old, ?_, ?_⟩
  · intro kept
    refine along_of_invariant (callStep fuel) (CallInBounds fuel) BackspacesOff (fun _ => True)
      (fun _ _ _ _ _ _ => trivial) ?_ _ calls trivial kept
    intro terminal call _ inBounds isBackspace
    subst isBackspace
    exact backspace_in_bounds_off fuel terminal inBounds
  · intro off
    refine along_of_invariant (callStep fuel) BackspacesOff (CallInBounds fuel) InBounds ?_ ?_ _ calls
      (initialize_in_bounds old) off
    · intro terminal call next inBounds guarded done
      exact (call_in_bounds fuel terminal call inBounds guarded).cursor next done
    · intro terminal call inBounds guarded
      exact call_in_bounds fuel terminal call inBounds guarded

def freshScreen : Terminal := terminalInitialize ⟨0, 0, 0, fun _ => 0⟩

theorem backspace_leaves_the_screen :
    callWrites 1 freshScreen .backspace = scrollWrites (-1) ++ [2 ^ 32 - 1] ∧
      (callStep 1 freshScreen .backspace).map Terminal.column = some (2 ^ 32 - 1) ∧
      ¬ Along (callStep 1) (CallInBounds 1) freshScreen [.backspace] := by
  refine ⟨?_, ?_, ?_⟩
  · have column : vgaWidth < decrement freshScreen.column := by
      rw [show freshScreen.column = 0 from rfl, decrement_zero, vgaWidth]
      omega
    have row : vgaHeight < decrement freshScreen.row := by
      rw [show freshScreen.row = 0 from rfl, decrement_zero, vgaHeight]
      omega
    simp only [callWrites, backspaceWrites, if_pos column, if_pos row]
    rw [show freshScreen.column = 0 from rfl, decrement_zero, entryWrite]
    simp
  · exact congrArg some ((backspace_column freshScreen).trans decrement_zero)
  · intro along
    exact backspace_in_bounds_off 1 freshScreen along.1 rfl

end Kraftwerk.Vga
