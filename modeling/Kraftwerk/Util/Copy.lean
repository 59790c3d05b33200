import Kraftwerk.Lib.Loops
import Mathlib.Algebra.Group.Nat.Defs
import Mathlib.Logic.Function.Basic

set_option autoImplicit false

-- memcpy of os/core/misc_util.cpp. length has 64 bits, i has 32.
namespace Kraftwerk.Util

open Loops

abbrev Address := BitVec 64
abbrev Memory := Address → BitVec 8

structure Copying where
  memory : Memory
  i : BitVec 32
  writes : List Address

section Copy

variable (destination source length : Address)

-- i is widened for the comparison and as an index.
def copyTurn (copying : Copying) : Option Copying :=
  let index := copying.i.setWidth 64
  if index < length then
    some ⟨Function.update copying.memory (destination + index) (copying.memory (source + index)), copying.i + 1,
      (destination + index) :: copying.writes⟩
  else none

def memcpyAfter (turns : Nat) (memory : Memory) : Option Copying := after (copyTurn destination source length) turns ⟨memory, 0, []⟩

def InBuffer (start address : Address) : Prop := ∃ k, k < length.toNat ∧ address = start + BitVec.ofNat 64 k

def NonOverlapping : Prop := ∀ address, InBuffer length destination address → ¬ InBuffer length source address

structure Copied (memory : Memory) (last : Copying) : Prop where
  ended : copyTurn destination source length last = none
  copied : ∀ k, k < length.toNat → last.memory (destination + BitVec.ofNat 64 k) = memory (source + BitVec.ofNat 64 k)
  outside : ∀ address, ¬ InBuffer length destination address → last.memory address = memory address ∧ address ∉ last.writes

def CopiesLength (memory : Memory) : Prop :=
  ∃ turns last, memcpyAfter destination source length turns memory = some last ∧ Copied destination source length memory last

-- The state after the first turns of the loop.
structure CopiedFirst (memory : Memory) (count : Nat) (copying : Copying) : Prop where
  i : copying.i = BitVec.ofNat 32 count
  copied : ∀ k, k < count → copying.memory (destination + BitVec.ofNat 64 k) = memory (source + BitVec.ofNat 64 k)
  outside : ∀ address, (∀ k, k < count → address ≠ destination + BitVec.ofNat 64 k) →
    copying.memory address = memory address ∧ address ∉ copying.writes

theorem widened (count : Nat) (small : count < 2 ^ 32) : (BitVec.ofNat 32 count).setWidth 64 = BitVec.ofNat 64 count := by
  apply BitVec.eq_of_toNat_eq
  rw [BitVec.toNat_setWidth, BitVec.toNat_ofNat, BitVec.toNat_ofNat, Nat.mod_eq_of_lt small]

theorem offset_apart (j k : Nat) (smallJ : j < 2 ^ 32) (smallK : k < 2 ^ 32) (apart : j ≠ k) :
    destination + BitVec.ofNat 64 j ≠ destination + BitVec.ofNat 64 k := by
  intro same
  have offsets := congrArg BitVec.toNat (BitVec.add_right_inj destination |>.mp same)
  rw [BitVec.toNat_ofNat, BitVec.toNat_ofNat, Nat.mod_eq_of_lt (by omega), Nat.mod_eq_of_lt (by omega)] at offsets
  exact apart offsets

theorem below_length (count : Nat) (small : count < 2 ^ 32) : BitVec.ofNat 64 count < length ↔ count < length.toNat := by
  rw [BitVec.lt_def, BitVec.toNat_ofNat, Nat.mod_eq_of_lt (by omega)]

theorem copied_turn (memory : Memory) (count : Nat) (copying : Copying) (apart : NonOverlapping destination source length)
    (small : length.toNat < 2 ^ 32) (inside : count < length.toNat) (first : CopiedFirst destination source memory count copying) :
    ∃ next, copyTurn destination source length copying = some next ∧ CopiedFirst destination source memory (count + 1) next := by
  have index : copying.i.setWidth 64 = BitVec.ofNat 64 count := by rw [first.i, widened count (by omega)]
  have read : copying.memory (source + BitVec.ofNat 64 count) = memory (source + BitVec.ofNat 64 count) :=
    (first.outside _ (fun k below same => apart _ ⟨k, by omega, same⟩ ⟨count, inside, rfl⟩)).1
  refine ⟨_, if_pos (by rw [index]; exact (below_length length count (by omega)).mpr inside), ?_, fun k below => ?_,
    fun address elsewhere => ?_⟩
  · dsimp only
    rw [first.i, BitVec.ofNat_add]
    rfl
  · dsimp only
    rw [index]
    rcases Nat.eq_or_lt_of_le (Nat.le_of_lt_succ below) with rfl | below
    · rw [Function.update_self, read]
    · rw [Function.update_of_ne (offset_apart destination k count (by omega) (by omega) (Nat.ne_of_lt below)), first.copied k below]
  · dsimp only
    have here := elsewhere count (Nat.lt_succ_self count)
    obtain ⟨unchanged, unwritten⟩ := first.outside address (fun k below => elsewhere k (Nat.lt_succ_of_lt below))
    rw [index, Function.update_of_ne here, List.mem_cons]
    exact ⟨unchanged, fun written => written.elim here unwritten⟩

theorem copied_first (memory : Memory) (count : Nat) (apart : NonOverlapping destination source length)
    (small : length.toNat < 2 ^ 32) (within : count ≤ length.toNat) :
    ∃ copying, memcpyAfter destination source length count memory = some copying ∧
      CopiedFirst destination source memory count copying := by
  induction count with
  | zero =>
      exact ⟨_, rfl, rfl, fun k below => absurd below (Nat.not_lt_zero k), fun address _ => ⟨rfl, List.not_mem_nil⟩⟩
  | succ count ih =>
      obtain ⟨copying, reached, first⟩ := ih (Nat.le_of_succ_le within)
      obtain ⟨next, stepped, more⟩ := copied_turn destination source length memory count copying apart small within first
      refine ⟨next, ?_, more⟩
      rw [memcpyAfter] at reached ⊢
      rw [after_succ, reached, Option.bind_some, stepped]

-- i never reaches a length that has more than its 32 bits.
theorem long_copy_never_ends (memory : Memory) (long : 2 ^ 32 ≤ length.toNat) (turns : Nat) :
    ∃ copying, memcpyAfter destination source length turns memory = some copying := by
  have goesOn : ∀ copying, True → ∃ next, copyTurn destination source length copying = some next ∧ True := by
    intro copying _
    have narrow := copying.i.isLt
    have inside : copying.i.setWidth 64 < length := by
      rw [BitVec.lt_def, BitVec.toNat_setWidth]
      omega
    exact ⟨_, if_pos inside, trivial⟩
  obtain ⟨copying, reached, _⟩ := never_ends goesOn ⟨memory, 0, []⟩ trivial turns
  exact ⟨copying, reached⟩

theorem long_copy_not_copied (memory : Memory) (long : 2 ^ 32 ≤ length.toNat) : ¬ CopiesLength destination source length memory := by
  rintro ⟨turns, last, reached, done⟩
  obtain ⟨next, further⟩ := long_copy_never_ends destination source length memory long (turns + 1)
  rw [memcpyAfter] at reached further
  rw [after_succ, reached, Option.bind_some, done.ended] at further
  cases further

theorem copies_length_iff (memory : Memory) (apart : NonOverlapping destination source length) :
    CopiesLength destination source length memory ↔ length.toNat < 2 ^ 32 := by
  constructor
  · intro copies
    by_contra long
    exact long_copy_not_copied destination source length memory (Nat.le_of_not_lt long) copies
  · intro small
    obtain ⟨last, reached, first⟩ := copied_first destination source length memory length.toNat apart small (Nat.le_refl _)
    refine ⟨length.toNat, last, reached, if_neg ?_, first.copied, fun address elsewhere => ?_⟩
    · rw [first.i, widened _ small, below_length length _ small]
      exact Nat.lt_irrefl _
    · exact first.outside address (fun k below same => elsewhere ⟨k, below, same⟩)

-- A buffer that does not wrap is the range of addresses from its start.
theorem in_buffer_iff (start address : Address) (fits : start.toNat + length.toNat ≤ 2 ^ 64) :
    InBuffer length start address ↔ start.toNat ≤ address.toNat ∧ address.toNat < start.toNat + length.toNat := by
  constructor
  · rintro ⟨k, below, rfl⟩
    rw [BitVec.toNat_add, BitVec.toNat_ofNat, Nat.add_mod_mod, Nat.mod_eq_of_lt (by omega)]
    omega
  · rintro ⟨above, below⟩
    refine ⟨address.toNat - start.toNat, by omega, ?_⟩
    apply BitVec.eq_of_toNat_eq
    rw [BitVec.toNat_add, BitVec.toNat_ofNat, Nat.add_mod_mod, Nat.add_sub_of_le above, Nat.mod_eq_of_lt address.isLt]

theorem non_overlapping_ranges (fitsDestination : destination.toNat + length.toNat ≤ 2 ^ 64)
    (fitsSource : source.toNat + length.toNat ≤ 2 ^ 64) (before : destination.toNat + length.toNat ≤ source.toNat) :
    NonOverlapping destination source length := by
  intro address inDestination inSource
  have low := (in_buffer_iff length destination address fitsDestination).mp inDestination
  have high := (in_buffer_iff length source address fitsSource).mp inSource
  omega

end Copy

theorem four_bytes_copied : CopiesLength 0x1000 0x2000 4 (fun address => address.setWidth 8) :=
  (copies_length_iff 0x1000 0x2000 4 _ (non_overlapping_ranges 0x1000 0x2000 4 (by decide) (by decide) (by decide))).mpr (by decide)

theorem four_gib_not_copied : NonOverlapping 0 0x100000000 0x100000000 ∧ ¬ CopiesLength 0 0x100000000 0x100000000 (fun _ => 0) :=
  ⟨non_overlapping_ranges 0 0x100000000 0x100000000 (by decide) (by decide) (by decide),
    long_copy_not_copied 0 0x100000000 0x100000000 _ (by decide)⟩

end Kraftwerk.Util
