import Kraftwerk.Lib.Simulation
import Kraftwerk.Print.BoundedOutput
import Kraftwerk.Print.MeasureThenPrint
import Kraftwerk.Vga.Writehex

set_option autoImplicit false

-- kprintf of os/core/printf.cpp, and the console that it shares with the calls of os/device/vga.cpp. Memory
-- is what the blocks of the heap hold; what %n stores to is an object of its own.
namespace Kraftwerk.Print

open CString Runs Vga

-- The block that is allocated for the text, and what the temporaries of the two passes find in theirs.
structure PrintCall where
  fmt : Str
  args : List Arg
  old : Nat → List Byte
  later : Nat → List Byte
  block : Nat

structure Formatted where
  length : BitVec 32
  memory : Nat → Byte
  stores : List Store

-- The two passes of kvprintf and panic: n is an int, and bufsz a size_t.
def formatTwice (usable : Nat → Nat) (call : PrintCall) (memory : Nat → Byte) : Option Formatted :=
  (kvsnprintf usable call.old 0 0 call.fmt call.args).bind (fun first =>
    (kvsnprintf usable call.later call.block ((first.value + 1).signExtend 64) call.fmt call.args).map (fun second =>
      ⟨first.value, storeAll (storeAll memory first.writes) second.writes, first.stores ++ second.stores⟩))

-- terminal_writestring of a char*, up to the first NUL in memory.
def writestringAt (memory : Nat → Byte) (data : Nat) : Nat → BitVec 32 → Terminal → Option Terminal
  | 0, _, _ => none
  | fuel + 1, i, terminal =>
      if memory (data + i.toNat) ≠ 0 then
        writestringAt memory data fuel (i + 1) (terminalPutchar (memory (data + i.toNat)) terminal)
      else some terminal

structure Console where
  terminal : Terminal
  memory : Nat → Byte
  stores : List Store
  returned : List (BitVec 32)

def kvprintf (usable : Nat → Nat) (fuel : Nat) (call : PrintCall) (console : Console) : Option (BitVec 32 × Console) :=
  (formatTwice usable call console.memory).bind (fun formatted =>
    (writestringAt formatted.memory call.block fuel 0 console.terminal).map (fun terminal =>
      (formatted.length, { console with
        terminal := terminal, memory := formatted.memory, stores := console.stores ++ formatted.stores })))

def kprintf (usable : Nat → Nat) (fuel : Nat) (call : PrintCall) (console : Console) : Option (BitVec 32 × Console) :=
  kvprintf usable fuel call console

inductive ConsoleCall where
  | terminal (op : Op)
  | writestringLength (data : Nat → Byte) (datalen : BitVec 32)
  | writehex (size : Nat) (data : BitVec (8 * size))
  | kprintf (call : PrintCall)

def consoleStep (usable : Nat → Nat) (fuel : Nat) (console : Console) : ConsoleCall → Option Console
  | .terminal op => (Vga.step fuel console.terminal op).map (fun terminal => { console with terminal := terminal })
  | .writestringLength data datalen => some { console with terminal := terminalWritestringLength data datalen console.terminal }
  | .writehex _ data => some { console with terminal := terminalWritehex data console.terminal }
  | .kprintf call =>
      (kprintf usable fuel call console).map (fun result => { result.2 with returned := result.1 :: console.returned })

def PrintCall.pieces (usable : Nat → Nat) (call : PrintCall) : List Piece :=
  ((directives call.fmt call.args).bind (convertAll usable call.old)).getD []

-- A %c of 0 ends the text on the screen.
def PrintCall.text (usable : Nat → Nat) (call : PrintCall) : Str := Str.ofBytes (written (call.pieces usable))

def PrintCall.Touches (usable : Nat → Nat) (call : PrintCall) (address : Nat) : Prop :=
  call.block ≤ address ∧ address ≤ call.block + (written (call.pieces usable)).length

-- The arguments match, there is no "%%", both passes find the same text, and n + 1 is an int.
structure PrintCall.Prints (usable : Nat → Nat) (call : PrintCall) : Prop where
  read : ∃ found, directives call.fmt call.args = some found ∧ .percent ∉ found ∧
    convertAll usable call.old found = some (call.pieces usable) ∧ convertAll usable call.later found = some (call.pieces usable)
  short : totalCounted (call.pieces usable) + 1 < 2 ^ 31
  given : call.block ≠ 0

def ConsoleCall.Prints (usable : Nat → Nat) : ConsoleCall → Prop
  | .terminal op => ∀ data, op = .writestring data → data.chars.length < 2 ^ 32
  | .writestringLength _ _ => True
  | .writehex _ _ => True
  | .kprintf call => call.Prints usable

-- What the console is for: the page, what was returned, and the bytes that were needed for it.
structure Shown where
  page : Page
  returned : List Nat
  touched : Set Nat

def Shown.act (usable : Nat → Nat) (shown : Shown) : ConsoleCall → Shown
  | .terminal op => { shown with page := shown.page.step op }
  | .writestringLength data datalen => { shown with page := shown.page.putAll ((List.range datalen.toNat).map data) }
  | .writehex _ data => { shown with page := shown.page.putAll (hexText data) }
  | .kprintf call => ⟨shown.page.putAll (call.text usable).chars, totalCounted (call.pieces usable) :: shown.returned,
      shown.touched ∪ {address | call.Touches usable address}⟩

structure Console.Shows (memory : Nat → Byte) (console : Console) (shown : Shown) : Prop where
  page : Vga.Shows console.terminal shown.page
  returned : console.returned.map BitVec.toInt = shown.returned.map Int.ofNat
  untouched : ∀ address, address ∉ shown.touched → console.memory address = memory address

section Memory

theorem store_all_above (memory : Nat → Byte) (address target : Nat) (bytes : List Byte) (above : address + bytes.length ≤ target) :
    storeAll memory (place address bytes) target = memory target := by
  induction bytes generalizing memory address with
  | nil => rfl
  | cons first rest ih =>
      rw [List.length_cons] at above
      rw [place, storeAll, List.foldl_cons]
      exact (ih _ (address + 1) (by omega)).trans (Function.update_of_ne (by omega) _ _)

theorem store_all_spells (memory : Nat → Byte) (address : Nat) (bytes : List Byte) :
    Spells (storeAll memory (place address bytes)) address bytes := by
  induction bytes generalizing memory address with
  | nil => trivial
  | cons first rest ih =>
      refine ⟨?_, ih (Function.update memory address first) (address + 1)⟩
      exact (store_all_below _ (address + 1) address rest (Nat.lt_succ_self address)).trans (Function.update_self _ _ _)

theorem text_held (memory : Nat → Byte) (data : Nat) (bytes : List Byte) (spelled : Spells memory data (bytes ++ [0])) :
    (Str.ofBytes bytes).HeldBy (fun index => memory (data + index)) := by
  refine held_of_spells _ bytes ((spells_iff _ 0 _).mpr (fun index inside => ?_))
  rw [Nat.zero_add]
  exact (spells_iff memory data _).mp spelled index inside

theorem writestring_at_eq (memory : Nat → Byte) (data fuel : Nat) (str : Str) (i : BitVec 32) (terminal : Terminal)
    (held : str.HeldBy (fun index => memory (data + index))) (short : str.chars.length < 2 ^ 32) (inside : i.toNat ≤ str.chars.length) :
    writestringAt memory data fuel i terminal = writestringFrom str fuel i terminal := by
  induction fuel generalizing i terminal with
  | zero => rfl
  | succ fuel ih =>
      have byte := (held_by_iff str _).mp held i.toNat inside
      rw [writestringAt, writestringFrom, byte]
      by_cases more : str.byteAt i.toNat ≠ 0
      · have left : i.toNat < str.chars.length := Nat.lt_of_not_le (fun past => more ((byte_at_eq_zero_iff str _).mpr past))
        have next := next_index str i short left
        rw [if_pos more, if_pos more, ih (i + 1) _ (by omega)]
      · rw [if_neg more, if_neg more]

end Memory

section Kprintf

variable (usable : Nat → Nat) (call : PrintCall) (memory : Nat → Byte)

theorem room_for_text (total : Nat) (short : total + 1 < 2 ^ 31) :
    ((BitVec.ofNat 32 total + 1).signExtend 64).toNat = total + 1 := by
  have sum : (BitVec.ofNat 32 total + 1).toNat = total + 1 := by
    rw [BitVec.toNat_add, BitVec.toNat_ofNat, show (1 : BitVec 32).toNat = 1 from rfl]
    omega
  have positive : (BitVec.ofNat 32 total + 1).msb = false := by
    rw [BitVec.msb_eq_false_iff_two_mul_lt, sum]
    omega
  rw [BitVec.signExtend_eq_setWidth_of_msb_false positive, BitVec.toNat_setWidth, sum]
  omega

theorem text_length (prints : call.Prints usable) :
    percents (call.pieces usable) = [] ∧ (written (call.pieces usable)).length = totalCounted (call.pieces usable) := by
  obtain ⟨found, _, noPercent, first, _⟩ := prints.read
  have silent := (convert_all_percents usable call.old found _ first).mpr noPercent
  have length := total_written_length (call.pieces usable)
  rw [silent, List.length_nil, Nat.add_zero] at length
  exact ⟨silent, length⟩

theorem format_twice_prints (prints : call.Prints usable) :
    ∃ formatted, formatTwice usable call memory = some formatted ∧
      formatted.length.toInt = totalCounted (call.pieces usable) ∧
      Spells formatted.memory call.block (written (call.pieces usable) ++ [0]) ∧
      ∀ address, ¬ call.Touches usable address → formatted.memory address = memory address := by
  obtain ⟨found, matching, _, first, second⟩ := prints.read
  obtain ⟨silent, length⟩ := text_length usable call prints
  have short := prints.short
  unfold PrintCall.Touches
  generalize call.pieces usable = pieces at first second silent length short ⊢
  let bufsz : BitVec 64 := (BitVec.ofNat 32 (totalCounted pieces) + 1).signExtend 64
  have size : bufsz.toNat = totalCounted pieces + 1 := room_for_text _ short
  have shown : shownFrom bufsz false 0 pieces = written pieces := shown_of_fits bufsz _ size 0 pieces (by omega)
  have firstWrites := (first_pass_silent pieces).mpr silent
  have secondWrites := print_pieces_writes call.block bufsz pieces prints.given
  rw [shown] at secondWrites
  refine ⟨⟨BitVec.ofNat 32 (totalCounted pieces), storeAll memory (place call.block (written pieces ++ [0])),
    (printPieces 0 0 pieces).stores ++ (printPieces call.block bufsz pieces).stores⟩, ?_, ?_, store_all_spells memory call.block _, ?_⟩
  · rw [formatTwice, kvsnprintf_eq usable _ _ _ _ _ found matching, first, Option.map_some, Option.bind_some, print_pieces_value,
      kvsnprintf_eq usable _ _ _ _ _ found matching, second, Option.map_some, Option.map_some, firstWrites, secondWrites]
    rfl
  · rw [value_to_int, BitVec.toNat_ofNat]
    omega
  · intro address untouched
    rcases Nat.lt_or_ge address call.block with below | above
    · exact store_all_below memory call.block address _ below
    · refine store_all_above memory call.block address _ ?_
      rw [List.length_append, List.length_singleton]
      have outside : ¬ address ≤ call.block + (written pieces).length := fun inside => untouched ⟨above, inside⟩
      omega

theorem text_short (prints : call.Prints usable) : (call.text usable).chars.length < 2 ^ 31 := by
  have length := (text_length usable call prints).2
  have short := prints.short
  have cut : (call.text usable).chars.length ≤ (written (call.pieces usable)).length := (List.takeWhile_sublist _).length_le
  omega

theorem kvprintf_prints (fuel : Nat) (console : Console) (prints : call.Prints usable) (enough : 2 ^ 32 ≤ fuel) :
    ∃ n last, kvprintf usable fuel call console = some (n, last) ∧ n.toInt = totalCounted (call.pieces usable) ∧
      last.returned = console.returned ∧ (∀ address, ¬ call.Touches usable address → last.memory address = console.memory address) ∧
      ∀ page, Vga.Shows console.terminal page → Vga.Shows last.terminal (page.putAll (call.text usable).chars) := by
  obtain ⟨formatted, done, length, spelled, frame⟩ := format_twice_prints usable call console.memory prints
  have short := text_short usable call prints
  have zero : (0 : BitVec 32).toNat = 0 := rfl
  have same := writestring_at_eq formatted.memory call.block fuel (call.text usable) 0 console.terminal
    (text_held formatted.memory call.block _ spelled) (by omega) (by omega)
  obtain ⟨terminal, returns⟩ := writestring_from_returns (call.text usable) fuel 0 console.terminal (by omega) (by omega) (by omega)
  refine ⟨formatted.length, ⟨terminal, formatted.memory, console.stores ++ formatted.stores, console.returned⟩, ?_, length, rfl, frame, ?_⟩
  · rw [kvprintf, done, Option.bind_some, same, returns, Option.map_some]
  · exact fun page shows => writestring_shows (call.text usable) fuel console.terminal terminal page shows returns

end Kprintf

section Runs

variable (usable : Nat → Nat) (fuel : Nat) (memory : Nat → Byte) (enough : 2 ^ 32 ≤ fuel)

theorem put_all_shows (chars : List Byte) (terminal : Terminal) (page : Page) (shows : Vga.Shows terminal page) :
    Vga.Shows (chars.foldl (fun terminal c => terminalPutchar c terminal) terminal) (page.putAll chars) := by
  induction chars generalizing terminal page with
  | nil => exact shows
  | cons c rest ih => exact ih _ _ (putchar_shows terminal page c shows)

include enough in
theorem console_step_shows (console : Console) (shown : Shown) (call : ConsoleCall) (shows : console.Shows memory shown)
    (prints : call.Prints usable) :
    ∃ next, consoleStep usable fuel console call = some next ∧ next.Shows memory (shown.act usable call) := by
  cases call with
  | terminal op =>
      have short : ∀ data, Op.writestring data ∈ [op] → data.chars.length < 2 ^ 32 :=
        fun data member => prints data (List.mem_singleton.mp member).symm
      obtain ⟨terminal, ran⟩ := run_returns fuel console.terminal [op] short enough
      obtain ⟨next, stepped, same⟩ := Option.bind_eq_some_iff.mp ran
      obtain rfl : next = terminal := Option.some.inj same
      refine ⟨{ console with terminal := next }, by rw [consoleStep, stepped, Option.map_some], ?_⟩
      exact ⟨step_shows fuel console.terminal next shown.page op shows.page stepped, shows.returned, shows.untouched⟩
  | writestringLength data datalen =>
      exact ⟨_, rfl, put_all_shows _ console.terminal shown.page shows.page, shows.returned, shows.untouched⟩
  | writehex size data => exact ⟨_, rfl, writehex_shows data console.terminal shown.page shows.page, shows.returned, shows.untouched⟩
  | kprintf call =>
      obtain ⟨n, last, printed, length, _, frame, page⟩ := kvprintf_prints usable call fuel console prints enough
      refine ⟨{ last with returned := n :: console.returned }, by rw [consoleStep, kprintf, printed, Option.map_some], ?_, ?_, ?_⟩
      · exact page shown.page shows.page
      · exact congrArg₂ List.cons length shows.returned
      · intro address untouched
        have neither := not_or.mp untouched
        exact (frame address neither.2).trans (shows.untouched address neither.1)

-- From terminal_initialize on, the screen is the window of the page that the texts were put on.
theorem console_runs_page (old : Terminal) (calls : List ConsoleCall) (prints : ∀ call ∈ calls, call.Prints usable) :
    ∃ fuel last, run (consoleStep usable fuel) ⟨terminalInitialize old, memory, [], []⟩ calls = some last ∧
      last.Shows memory (calls.foldl (Shown.act usable) ⟨emptyPage, [], ∅⟩) := by
  have start : Console.Shows memory ⟨terminalInitialize old, memory, [], []⟩ ⟨emptyPage, [], ∅⟩ :=
    ⟨initialize_shows old, rfl, fun _ _ => rfl⟩
  have guarded : Along (fun shown call => some (Shown.act usable shown call)) (fun _ call => call.Prints usable) ⟨emptyPage, [], ∅⟩ calls :=
    along_forall _ (ConsoleCall.Prints usable) _ calls prints
  obtain ⟨last, finished, shows⟩ := Simulation.run_follows (consoleStep usable (2 ^ 32)) (Shown.act usable)
    (fun _ call => call.Prints usable) (Console.Shows memory)
    (fun console shown call => console_step_shows usable (2 ^ 32) memory (Nat.le_refl _) console shown call) _ _ calls start guarded
  exact ⟨2 ^ 32, last, finished, shows⟩

end Runs

def printsNumber : PrintCall := ⟨Str.ofBytes ("n=%d\n".toList.map chr), [.word 123], fun _ => [], fun _ => [0xFF], 0x4000⟩

theorem prints_number : printsNumber.Prints (fun request => max request 16) :=
  ⟨⟨_, rfl, by decide, by decide, by decide⟩, by decide, by decide⟩

def numberCalls : List ConsoleCall := [.terminal (.setcolors .white .blue), .kprintf printsNumber, .writehex 2 0xB8A0]

theorem number_calls_print : ∀ call ∈ numberCalls, call.Prints (fun request => max request 16) := by
  refine List.forall_mem_cons.mpr ⟨?_, List.forall_mem_cons.mpr ⟨prints_number, List.forall_mem_singleton.mpr trivial⟩⟩
  rintro data ⟨⟩

theorem number_on_page :
    ∃ fuel last, run (consoleStep (fun request => max request 16) fuel) ⟨terminalInitialize ⟨5, 7, 0, fun _ => 0⟩, fun _ => 0, [], []⟩
        numberCalls = some last ∧
      last.Shows (fun _ => 0) (numberCalls.foldl (Shown.act (fun request => max request 16)) ⟨emptyPage, [], ∅⟩) :=
  console_runs_page (fun request => max request 16) (fun _ => 0) ⟨5, 7, 0, fun _ => 0⟩ numberCalls number_calls_print

end Kraftwerk.Print
