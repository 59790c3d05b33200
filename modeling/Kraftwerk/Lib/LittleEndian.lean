import Mathlib.Algebra.Order.Group.Nat
import Mathlib.Logic.Function.Basic

set_option autoImplicit false

-- Numbers in the bytes of a memory, least significant byte first, and accesses to them of which each byte is translated.
namespace LittleEndian

abbrev Bytes := Nat → BitVec 8

def loadNumber (mem : Bytes) (address : Nat) : Nat → Nat
  | 0 => 0
  | count + 1 => (mem address).toNat + 256 * loadNumber mem (address + 1) count

def storeNumber (mem : Bytes) (address value : Nat) : Nat → Bytes
  | 0 => mem
  | count + 1 => storeNumber (Function.update mem address (BitVec.ofNat 8 value)) (address + 1) (value / 256) count

def loadVia (translate : Nat → Option Nat) (mem : Bytes) (address : Nat) : Nat → Option Nat
  | 0 => some 0
  | count + 1 =>
      (translate address).bind fun physical =>
        (loadVia translate mem (address + 1) count).map fun above => (mem physical).toNat + 256 * above

def storeVia (translate : Nat → Option Nat) (mem : Bytes) (address value : Nat) : Nat → Option Bytes
  | 0 => some mem
  | count + 1 =>
      (translate address).bind fun physical =>
        storeVia translate (Function.update mem physical (BitVec.ofNat 8 value)) (address + 1) (value / 256) count

theorem load_congr (mem other : Bytes) (address count : Nat)
    (same : ∀ byte, address ≤ byte → byte < address + count → mem byte = other byte) :
    loadNumber mem address count = loadNumber other address count := by
  induction count generalizing address with
  | zero => rfl
  | succ count ih =>
      rw [loadNumber, loadNumber, same address (Nat.le_refl _) (by omega),
        ih (address + 1) fun byte above below => same byte (by omega) (by omega)]

theorem store_elsewhere (mem : Bytes) (address value count byte : Nat) (apart : byte < address ∨ address + count ≤ byte) :
    storeNumber mem address value count byte = mem byte := by
  induction count generalizing mem address value with
  | zero => rfl
  | succ count ih =>
      rw [storeNumber, ih _ (address + 1) _ (by omega), Function.update_of_ne (by omega)]

theorem load_store_elsewhere (mem : Bytes) (address value count other others : Nat)
    (apart : other + others ≤ address ∨ address + count ≤ other) :
    loadNumber (storeNumber mem address value count) other others = loadNumber mem other others :=
  load_congr _ _ other others fun byte above below => store_elsewhere mem address value count byte (by omega)

theorem load_store (mem : Bytes) (address value count : Nat) :
    loadNumber (storeNumber mem address value count) address count = value % 256 ^ count := by
  induction count generalizing mem address value with
  | zero => rw [loadNumber, pow_zero, Nat.mod_one]
  | succ count ih =>
      rw [loadNumber, storeNumber, ih, store_elsewhere _ _ _ _ _ (.inl (Nat.lt_succ_self address)), Function.update_self, BitVec.toNat_ofNat,
        pow_succ' 256 count, @Nat.mod_mul 256 (256 ^ count) value]

theorem load_via_identity (translate : Nat → Option Nat) (mem : Bytes) (address count : Nat)
    (identity : ∀ byte, address ≤ byte → byte < address + count → translate byte = some byte) :
    loadVia translate mem address count = some (loadNumber mem address count) := by
  induction count generalizing address with
  | zero => rfl
  | succ count ih =>
      rw [loadVia, identity address (Nat.le_refl _) (by omega), Option.bind_some,
        ih (address + 1) fun byte above below => identity byte (by omega) (by omega), Option.map_some, loadNumber]

theorem store_via_identity (translate : Nat → Option Nat) (mem : Bytes) (address value count : Nat)
    (identity : ∀ byte, address ≤ byte → byte < address + count → translate byte = some byte) :
    storeVia translate mem address value count = some (storeNumber mem address value count) := by
  induction count generalizing mem address value with
  | zero => rfl
  | succ count ih =>
      rw [storeVia, identity address (Nat.le_refl _) (by omega), Option.bind_some,
        ih _ (address + 1) _ fun byte above below => identity byte (by omega) (by omega), storeNumber]

-- The bytes of a memory that is given in numbers of size bytes each.
def ofNumbers (size : Nat) (numbers : Nat → Nat) : Bytes := fun address =>
  BitVec.ofNat 8 (numbers (address / size * size) / 256 ^ (address % size))

theorem load_of_numbers (size : Nat) (numbers : Nat → Nat) (start offset count : Nat) (inside : offset + count ≤ size) :
    loadNumber (ofNumbers size numbers) (size * start + offset) count = numbers (size * start) / 256 ^ offset % 256 ^ count := by
  induction count generalizing offset with
  | zero => rw [loadNumber, pow_zero, Nat.mod_one]
  | succ count ih =>
      have positive : 0 < size := by omega
      have number : (size * start + offset) / size * size = size * start := by
        rw [Nat.mul_add_div positive, Nat.div_eq_of_lt (by omega), Nat.add_zero, Nat.mul_comm]
      have digit : (size * start + offset) % size = offset := by
        rw [Nat.mul_add_mod, Nat.mod_eq_of_lt (by omega)]
      rw [loadNumber, Nat.add_assoc, ih (offset + 1) (by omega), ofNumbers, number, digit, BitVec.toNat_ofNat, pow_succ 256 offset,
        ← Nat.div_div_eq_div_mul, pow_succ' 256 count, @Nat.mod_mul 256 (256 ^ count)]

end LittleEndian
