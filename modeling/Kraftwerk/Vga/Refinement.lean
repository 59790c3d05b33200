import Kraftwerk.Lib.Runs
import Kraftwerk.Vga.Page

set_option autoImplicit false

namespace Kraftwerk.Vga

open CString Runs

inductive Op where
  | writestring (data : Str)
  | setcolor (color : Byte)
  | setcolors (fg bg : VgaColor)

def step (fuel : Nat) (terminal : Terminal) : Op → Option Terminal
  | .writestring data => terminalWritestring fuel data terminal
  | .setcolor color => some (terminalSetcolor color terminal)
  | .setcolors fg bg => some (terminalSetcolors fg bg terminal)

def Page.putAll (chars : List Byte) (page : Page) : Page := chars.foldl (fun page c => page.putchar c) page

def Page.step (page : Page) : Op → Page
  | .writestring data => page.putAll data.chars
  | .setcolor color => { page with color := color }
  | .setcolors fg bg => { page with color := makeColor fg bg }

theorem initialize_rows_cell (entry : BitVec 16) (buffer : Nat → BitVec 16) (count y x : Nat) (inRow : x < 80) :
    (List.range count).foldl (fun buffer y => fillRow y (fun _ _ => entry) buffer) buffer (y * 80 + x) =
      if y < count then entry else buffer (y * 80 + x) := by
  induction count with
  | zero => rfl
  | succ count ih =>
      rw [List.range_succ, List.foldl_append, List.foldl_cons, List.foldl_nil, fill_row_cell count _ _ (fun _ _ _ _ => rfl), ih]
      by_cases here : y = count
      · rw [if_pos (by omega), if_pos (by omega)]
      · rw [if_neg (by omega)]
        by_cases earlier : y < count
        · rw [if_pos earlier, if_pos (by omega)]
        · rw [if_neg earlier, if_neg (by omega)]

theorem initialize_shows (old : Terminal) : Shows (terminalInitialize old) emptyPage where
  row := rfl
  color := rfl
  window := fun y x inHeight inRow =>
    (initialize_rows_cell blankEntry old.buffer 24 y x inRow).trans (if_pos inHeight)
  unwritten := fun _ _ _ => rfl
  column := rfl
  onPage := Nat.zero_lt_succ 79

theorem next_index (data : Str) (i : BitVec 32) (short : data.chars.length < 2 ^ 32) (left : i.toNat < data.chars.length) :
    (i + 1).toNat = i.toNat + 1 := by
  have one : (1 : BitVec 32).toNat = 1 := rfl
  rw [BitVec.toNat_add, one]
  exact Nat.mod_eq_of_lt (by omega)

-- What the loop returns, if it does, is the effect of the characters that are left.
theorem writestring_from_shows (data : Str) (fuel : Nat) (i : BitVec 32) (terminal last : Terminal) (page : Page)
    (shows : Shows terminal page) (short : data.chars.length < 2 ^ 32) (inside : i.toNat ≤ data.chars.length)
    (done : writestringFrom data fuel i terminal = some last) : Shows last (page.putAll (data.chars.drop i.toNat)) := by
  induction fuel generalizing i terminal page with
  | zero => cases done
  | succ fuel ih =>
      rw [writestringFrom] at done
      split at done
      · rename_i more
        have left : i.toNat < data.chars.length := Nat.lt_of_not_le (fun past => more ((byte_at_eq_zero_iff data _).mpr past))
        have next := next_index data i short left
        rw [drop_eq_byte_at_cons data i.toNat left, ← next]
        exact ih (i + 1) _ _ (putchar_shows terminal page _ shows) (by omega) done
      · rename_i stop
        obtain rfl := Option.some.inj done
        have past := (byte_at_eq_zero_iff data _).mp (not_not.mp stop)
        rw [List.drop_eq_nil_of_le past]
        exact shows

theorem writestring_from_endless (data : Str) (fuel : Nat) (i : BitVec 32) (terminal : Terminal)
    (long : 2 ^ 32 ≤ data.chars.length) : writestringFrom data fuel i terminal = none := by
  induction fuel generalizing i terminal with
  | zero => rfl
  | succ fuel ih =>
      have inside := i.isLt
      have more : data.byteAt i.toNat ≠ 0 := fun zero => by
        have := (byte_at_eq_zero_iff data _).mp zero
        omega
      rw [writestringFrom, if_pos more]
      exact ih (i + 1) _

theorem writestring_from_returns (data : Str) (fuel : Nat) (i : BitVec 32) (terminal : Terminal)
    (short : data.chars.length < 2 ^ 32) (inside : i.toNat ≤ data.chars.length)
    (enough : data.chars.length < i.toNat + fuel) : ∃ last, writestringFrom data fuel i terminal = some last := by
  induction fuel generalizing i terminal with
  | zero => omega
  | succ fuel ih =>
      rw [writestringFrom]
      split
      · rename_i more
        have left : i.toNat < data.chars.length := Nat.lt_of_not_le (fun past => more ((byte_at_eq_zero_iff data _).mpr past))
        have next := next_index data i short left
        exact ih (i + 1) _ (by omega) (by omega)
      · exact ⟨terminal, rfl⟩

theorem writestring_shows (data : Str) (fuel : Nat) (terminal last : Terminal) (page : Page) (shows : Shows terminal page)
    (done : terminalWritestring fuel data terminal = some last) : Shows last (page.putAll data.chars) := by
  by_cases short : data.chars.length < 2 ^ 32
  · exact writestring_from_shows data fuel 0 terminal last page shows short (Nat.zero_le _) done
  · rw [terminalWritestring, writestring_from_endless data fuel 0 terminal (by omega)] at done
    cases done

theorem string_shown (fuel : Nat) (terminal : Terminal) (page : Page) (data : Str) (shows : Shows terminal page)
    (short : data.chars.length < 2 ^ 32) (enough : 2 ^ 32 ≤ fuel) :
    ∃ last, terminalWritestring fuel data terminal = some last ∧ Shows last (page.putAll data.chars) := by
  have zero : (0 : BitVec 32).toNat = 0 := rfl
  obtain ⟨last, returns⟩ := writestring_from_returns data fuel 0 terminal short (by omega) (by omega)
  exact ⟨last, returns, writestring_shows data fuel terminal last page shows returns⟩

theorem page_put_all_append (page : Page) (front back : List Byte) : page.putAll (front ++ back) = (page.putAll front).putAll back :=
  List.foldl_append ..

theorem step_shows (fuel : Nat) (terminal last : Terminal) (page : Page) (op : Op) (shows : Shows terminal page)
    (done : step fuel terminal op = some last) : Shows last (page.step op) := by
  cases op with
  | writestring data => exact writestring_shows data fuel terminal last page shows done
  | setcolor color =>
      obtain rfl := Option.some.inj done
      exact { shows with color := rfl }
  | setcolors fg bg =>
      obtain rfl := Option.some.inj done
      exact { shows with color := rfl }

theorem run_shows (fuel : Nat) (terminal last : Terminal) (page : Page) (ops : List Op) (shows : Shows terminal page)
    (done : run (step fuel) terminal ops = some last) : Shows last (ops.foldl Page.step page) := by
  induction ops generalizing terminal page with
  | nil => exact Option.some.inj done ▸ shows
  | cons op rest ih =>
      obtain ⟨next, stepped, later⟩ := Option.bind_eq_some_iff.mp done
      exact ih next (page.step op) (step_shows fuel terminal next page op shows stepped) later

theorem run_returns (fuel : Nat) (terminal : Terminal) (ops : List Op)
    (short : ∀ data, Op.writestring data ∈ ops → data.chars.length < 2 ^ 32) (enough : 2 ^ 32 ≤ fuel) :
    ∃ last, run (step fuel) terminal ops = some last := by
  induction ops generalizing terminal with
  | nil => exact ⟨terminal, rfl⟩
  | cons op rest ih =>
      have later := fun next => ih next (fun data member => short data (List.mem_cons_of_mem op member))
      cases op with
      | writestring data =>
          have shortData := short data List.mem_cons_self
          have zero : (0 : BitVec 32).toNat = 0 := rfl
          obtain ⟨next, stepped⟩ := writestring_from_returns data fuel 0 terminal shortData (Nat.zero_le _) (by omega)
          obtain ⟨last, finished⟩ := later next
          exact ⟨last, by rw [run, step, terminalWritestring, stepped]; exact finished⟩
      | setcolor color => exact later _
      | setcolors fg bg => exact later _

theorem run_endless (fuel : Nat) (terminal : Terminal) (ops : List Op) (data : Str) (member : Op.writestring data ∈ ops)
    (long : 2 ^ 32 ≤ data.chars.length) : run (step fuel) terminal ops = none := by
  induction ops generalizing terminal with
  | nil => cases member
  | cons op rest ih =>
      rw [run]
      rcases List.mem_cons.mp member with rfl | later
      · rw [step, terminalWritestring, writestring_from_endless data fuel 0 terminal long]
        rfl
      · cases stepped : step fuel terminal op with
        | none => rfl
        | some next => exact ih next later

-- The unsigned int that counts the characters wraps around in a longer string and never meets its end.
theorem terminal_refines_page (old : Terminal) (ops : List Op) :
    (∃ fuel last, run (step fuel) (terminalInitialize old) ops = some last ∧ Shows last (ops.foldl Page.step emptyPage)) ↔
      ∀ data, Op.writestring data ∈ ops → data.chars.length < 2 ^ 32 := by
  constructor
  · rintro ⟨fuel, last, finished, _⟩ data member
    by_contra long
    rw [run_endless fuel _ ops data member (Nat.le_of_not_lt long)] at finished
    cases finished
  · intro short
    obtain ⟨last, finished⟩ := run_returns (2 ^ 32) (terminalInitialize old) ops short (Nat.le_refl _)
    exact ⟨2 ^ 32, last, finished, run_shows (2 ^ 32) _ last emptyPage ops (initialize_shows old) finished⟩

def fourGib : Str := ⟨List.replicate (2 ^ 32) (chr 'A'), fun c member => by rw [List.eq_of_mem_replicate member]; decide⟩

theorem four_gib_never_shown :
    ¬ ∃ fuel last, run (step fuel) (terminalInitialize ⟨0, 0, 0, fun _ => 0⟩) [.writestring fourGib] = some last ∧
      Shows last ([Op.writestring fourGib].foldl Page.step emptyPage) := by
  rintro ⟨fuel, last, finished, _⟩
  have length : fourGib.chars.length = 2 ^ 32 := List.length_replicate
  rw [run_endless fuel _ _ fourGib List.mem_cons_self (Nat.le_of_eq length.symm)] at finished
  cases finished

end Kraftwerk.Vga
