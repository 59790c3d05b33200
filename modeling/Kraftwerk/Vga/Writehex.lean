import Kraftwerk.Print.Itoa
import Kraftwerk.Vga.Refinement

set_option autoImplicit false

-- terminal_writehex of os/include/device/vga.h, for an unsigned int_type of size bytes. putchar
-- is the call of terminal_putchar, and State what such a call changes.
namespace Kraftwerk.Vga

open CString Print

def writehexFrom {State : Type} (putchar : Byte → State → State) {size : Nat} (data : BitVec (8 * size)) (nChars : Nat) :
    Nat → Nat → State → State
  | 0, _, state => state
  | left + 1, i, state =>
      let index := (data >>> (((nChars - i) - 1) * 4)) &&& 0xF
      writehexFrom putchar data nChars left (i + 1) (putchar (alphanumeric.getD index.toNat 0) state)

def writehex {State : Type} (putchar : Byte → State → State) {size : Nat} (data : BitVec (8 * size)) (state : State) : State :=
  writehexFrom putchar data (size * 2) (size * 2) 0 state

def terminalWritehex {size : Nat} (data : BitVec (8 * size)) (terminal : Terminal) : Terminal := writehex terminalPutchar data terminal

def passed {size : Nat} (data : BitVec (8 * size)) : List Byte := writehex (fun c chars => chars ++ [c]) data []

def hexDigits : List Byte := "0123456789ABCDEF".toList.map chr

def readHex (chars : List Byte) : Nat := Nat.ofDigits 16 (chars.reverse.map hexDigits.idxOf)

structure HexText (size : Nat) (data : BitVec (8 * size)) (chars : List Byte) : Prop where
  length : chars.length = 2 * size
  letters : ∀ c ∈ chars, c ∈ hexDigits
  nibbles : ∀ index < 2 * size, chars[index]? = hexDigits[data.toNat / 16 ^ (2 * size - 1 - index) % 16]?
  value : readHex chars = data.toNat

structure WritesHex (size : Nat) : Prop where
  passes : ∀ (data : BitVec (8 * size)) (terminal : Terminal),
    terminalWritehex data terminal = (passed data).foldl (fun terminal c => terminalPutchar c terminal) terminal
  text : ∀ data : BitVec (8 * size), HexText size data (passed data)
  distinct : ∀ first second : BitVec (8 * size), passed first = passed second → first = second

example : @passed 2 0xB8A0 = "B8A0".toList.map chr := by decide

section

variable {size : Nat} (data : BitVec (8 * size))

def nibble (digit : Nat) : Nat := data.toNat / 16 ^ digit % 16

def hexText : List Byte := (List.range (2 * size)).reverse.map (fun digit => hexDigits.getD (nibble data digit) 0)

theorem nibble_index (digit : Nat) (inside : digit < 2 * size) : ((data >>> (digit * 4)) &&& 0xF).toNat = nibble data digit := by
  have wide : 2 ^ 4 ≤ 2 ^ (8 * size) := Nat.pow_le_pow_right (by decide) (by omega)
  have mask : (0xF : BitVec (8 * size)).toNat = 2 ^ 4 - 1 := Nat.mod_eq_of_lt (Nat.lt_of_lt_of_le (by decide) wide)
  have power : 2 ^ (digit * 4) = 16 ^ digit := by rw [Nat.mul_comm, Nat.pow_mul]
  rw [BitVec.toNat_and, BitVec.toNat_ushiftRight, Nat.shiftRight_eq_div_pow, mask, Nat.and_two_pow_sub_one_eq_mod, power, nibble]

theorem hex_letter (digit : Nat) (small : digit < 16) :
    alphanumeric.getD digit 0 = hexDigits.getD digit 0 ∧ hexDigits.idxOf (hexDigits.getD digit 0) = digit ∧
      hexDigits.getD digit 0 ∈ hexDigits ∧ hexDigits[digit]? = some (hexDigits.getD digit 0) := by
  revert digit
  decide

-- With some digits left, the loop is at the highest of them.
theorem writehex_from_eq {State : Type} (putchar : Byte → State → State) (left i : Nat) (state : State) (all : i + left = size * 2) :
    writehexFrom putchar data (size * 2) left i state =
      ((List.range left).reverse.map (fun digit => hexDigits.getD (nibble data digit) 0)).foldl (fun state c => putchar c state) state := by
  induction left generalizing i state with
  | zero => rfl
  | succ left ih =>
      have highest : size * 2 - i - 1 = left := by omega
      have below : nibble data left < 16 := Nat.mod_lt _ (by decide)
      rw [writehexFrom, highest, nibble_index data left (by omega), (hex_letter _ below).1, ih (i + 1) _ (by omega)]
      rw [List.range_succ, List.reverse_append, List.reverse_singleton, List.singleton_append, List.map_cons, List.foldl_cons]

theorem writehex_eq {State : Type} (putchar : Byte → State → State) (state : State) :
    writehex putchar data state = (hexText data).foldl (fun state c => putchar c state) state := by
  rw [writehex, writehex_from_eq data putchar _ 0 state (Nat.zero_add _), hexText, Nat.mul_comm]

theorem passed_eq : passed data = hexText data := by
  have collected : ∀ chars front : List Byte, chars.foldl (fun state c => state ++ [c]) front = front ++ chars := by
    intro chars
    induction chars with
    | nil => exact fun front => (List.append_nil front).symm
    | cons c rest ih => exact fun front => (ih (front ++ [c])).trans (List.append_assoc front [c] rest)
  rw [passed, writehex_eq, collected, List.nil_append]

theorem digits_below (base num count : Nat) :
    Nat.ofDigits base ((List.range count).map (fun digit => num / base ^ digit % base)) = num % base ^ count := by
  induction count with
  | zero => rw [pow_zero, Nat.mod_one]; rfl
  | succ count ih =>
      rw [List.range_succ, List.map_append, Nat.ofDigits_append, ih, List.length_map, List.length_range, List.map_singleton,
        Nat.ofDigits_singleton, Nat.mod_pow_succ]

theorem read_hex_text : readHex (hexText data) = data.toNat := by
  have letters : ((List.range (2 * size)).map (fun digit => hexDigits.getD (nibble data digit) 0)).map hexDigits.idxOf =
      (List.range (2 * size)).map (fun digit => data.toNat / 16 ^ digit % 16) := by
    rw [List.map_map]
    exact List.map_congr_left (fun digit _ => (hex_letter _ (Nat.mod_lt _ (by decide))).2.1)
  have all : 16 ^ (2 * size) = 2 ^ (8 * size) := by
    rw [show 8 * size = 4 * (2 * size) by omega, Nat.pow_mul 2 4]
  rw [readHex, hexText, ← List.map_reverse, List.reverse_reverse, letters, digits_below, all, Nat.mod_eq_of_lt data.isLt]

theorem hex_text : HexText size data (hexText data) where
  length := by rw [hexText, List.length_map, List.length_reverse, List.length_range]
  letters := by
    intro c member
    obtain ⟨digit, _, rfl⟩ := List.mem_map.mp member
    exact (hex_letter _ (Nat.mod_lt _ (by decide))).2.2.1
  nibbles := by
    intro index inside
    have place : index < (List.range (2 * size)).reverse.length := by rwa [List.length_reverse, List.length_range]
    rw [hexText, List.getElem?_map, List.getElem?_eq_getElem place, List.getElem_reverse, List.getElem_range, List.length_range,
      Option.map_some]
    exact (hex_letter _ (Nat.mod_lt _ (by decide))).2.2.2.symm
  value := read_hex_text data

-- The digits of two numbers of one type take the same room.
theorem hex_text_injective {size : Nat} (first second : BitVec (8 * size)) (behind beyond : List Byte)
    (same : hexText first ++ behind = hexText second ++ beyond) : first = second ∧ behind = beyond := by
  obtain ⟨digits, rest⟩ := List.append_inj same ((hex_text first).length.trans (hex_text second).length.symm)
  exact ⟨BitVec.eq_of_toNat_eq (by rw [← read_hex_text first, ← read_hex_text second, digits]), rest⟩

theorem writehex_shows (terminal : Terminal) (page : Page) (shows : Shows terminal page) :
    Shows (terminalWritehex data terminal) (page.putAll (hexText data)) := by
  rw [terminalWritehex, writehex_eq, Page.putAll]
  generalize hexText data = chars
  induction chars generalizing terminal page with
  | nil => exact shows
  | cons c rest ih => exact ih _ _ (putchar_shows terminal page c shows)

end

theorem writes_hex (size : Nat) : WritesHex size where
  passes := fun data terminal => by rw [passed_eq, terminalWritehex, writehex_eq]
  text := fun data => by
    rw [passed_eq]
    exact hex_text data
  distinct := by
    intro first second same
    rw [passed_eq, passed_eq] at same
    apply BitVec.eq_of_toNat_eq
    rw [← read_hex_text first, ← read_hex_text second, same]

end Kraftwerk.Vga
