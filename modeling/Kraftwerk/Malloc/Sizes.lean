import Kraftwerk.Malloc.Kmalloc

set_option autoImplicit false

-- What kmalloc sets aside for a number of bytes.
namespace Kraftwerk.Malloc

-- while( tmp >>= 1 ) { order++; }
def countShifts (tmp : Nat) : Nat := if tmp >>> 1 = 0 then 0 else countShifts (tmp >>> 1) + 1
termination_by tmp
decreasing_by
  rw [Nat.shiftRight_eq_div_pow] at *
  omega

-- tmp is an unsigned int.
def chosenOrder (bytes : Nat) : Nat :=
  let order := countShifts (bytes % 2 ^ 32)
  (if order < 4 then 4 else order) - 4

theorem count_shifts_log2 (tmp : Nat) : countShifts tmp = Nat.log2 tmp := by
  induction tmp using countShifts.induct with
  | case1 tmp last =>
      rw [Nat.shiftRight_eq_div_pow] at last
      have small : tmp = 0 ∨ tmp = 1 := by omega
      rcases small with rfl | rfl
      · simp [countShifts]
      · simp [countShifts, Nat.log2_def]
  | case2 tmp more ih =>
      rw [countShifts, if_neg more, ih]
      rw [Nat.shiftRight_eq_div_pow] at more ⊢
      rw [Nat.log2_def tmp, if_pos (by omega), Nat.pow_one]

theorem order_of_chosen (bytes : Nat) (small : bytes ≤ 1024) : orderOf bytes = chosenOrder bytes := by
  have narrow : bytes % 2 ^ 32 = bytes := Nat.mod_eq_of_lt (by omega)
  rw [chosenOrder, narrow, count_shifts_log2, orderOf]
  split
  · omega
  · omega

def ReservesEnough (bytes : Nat) : Prop :=
  if 1024 < bytes then bytes ≤ kernPages bytes * pageSize
  else chosenOrder bytes ≤ 6 ∧ bytes ≤ chunkBytes (chosenOrder bytes)

-- A chunk is the largest power of two that is not above the size, and no less than 16.
theorem chunk_bytes_chosen (bytes : Nat) (small : bytes ≤ 1024) :
    chunkBytes (chosenOrder bytes) = 2 ^ max (Nat.log2 bytes) 4 := by
  rw [← order_of_chosen bytes small, chunkBytes, orderOf, Nat.shiftLeft_eq, show 16 = 2 ^ 4 from rfl, ← Nat.pow_add,
    Nat.add_sub_cancel' (Nat.le_max_right _ _)]

theorem chunk_enough_iff (bytes : Nat) (small : bytes ≤ 1024) :
    ReservesEnough bytes ↔ bytes ≤ 16 ∨ ∃ exponent, bytes = 2 ^ exponent := by
  have order := order_small bytes small
  rw [order_of_chosen bytes small] at order
  rw [ReservesEnough, if_neg (Nat.not_lt_of_le small), chunk_bytes_chosen bytes small]
  constructor
  · rintro ⟨_, enough⟩
    by_cases low : Nat.log2 bytes < 4
    · rw [Nat.max_eq_right (Nat.le_of_lt low)] at enough
      exact Or.inl enough
    · rw [Nat.max_eq_left (Nat.le_of_not_lt low)] at enough
      have nonzero : bytes ≠ 0 := by
        rintro rfl
        exact low (by decide)
      exact Or.inr ⟨_, Nat.le_antisymm enough (Nat.log2_self_le nonzero)⟩
  · rintro (few | ⟨exponent, rfl⟩)
    · have least : 2 ^ 4 ≤ 2 ^ max (Nat.log2 bytes) 4 := Nat.pow_le_pow_right (by decide) (Nat.le_max_right _ _)
      exact ⟨order, Nat.le_trans few least⟩
    · rw [Nat.log2_two_pow]
      exact ⟨order, Nat.pow_le_pow_right (by decide) (Nat.le_max_left _ _)⟩

-- The number of whole pages in the size, and one page when there is none.
theorem pages_enough_iff (bytes : Nat) (large : 1024 < bytes) :
    ReservesEnough bytes ↔ bytes ≤ 4096 ∨ (bytes % 4096 = 0 ∧ bytes / 4096 < 2 ^ 32) := by
  rw [ReservesEnough, if_pos large, kernPages, Nat.shiftRight_eq_div_pow, pageSize]
  split
  · constructor
    · omega
    · omega
  · rw [Nat.mod_eq_of_lt (by decide)]
    omega

theorem reserves_enough_iff (bytes : BitVec 64) :
    ReservesEnough bytes.toNat ↔
      bytes.toNat ≤ 16 ∨ (bytes.toNat ≤ 1024 ∧ ∃ exponent, bytes.toNat = 2 ^ exponent) ∨
        (1024 < bytes.toNat ∧ bytes.toNat ≤ 4096) ∨ (bytes.toNat % 4096 = 0 ∧ bytes.toNat / 4096 < 2 ^ 32) := by
  by_cases large : 1024 < bytes.toNat
  · rw [pages_enough_iff _ large]
    omega
  · rw [chunk_enough_iff _ (Nat.le_of_not_lt large)]
    have chunk : bytes.toNat % 4096 = 0 → bytes.toNat ≤ 16 := by omega
    constructor
    · rintro (few | power)
      · exact Or.inl few
      · exact Or.inr (Or.inl ⟨Nat.le_of_not_lt large, power⟩)
    · rintro (few | ⟨_, power⟩ | ⟨above, _⟩ | ⟨whole, _⟩)
      · exact Or.inl few
      · exact Or.inr power
      · exact absurd above large
      · exact Or.inl (chunk whole)

theorem reserves_too_little : ¬ ReservesEnough (17#64).toNat ∧ ¬ ReservesEnough (8191#64).toNat := by
  constructor
  · rw [ReservesEnough, if_neg (by decide), chunk_bytes_chosen _ (by decide)]
    exact fun enough => absurd enough.2 (by decide)
  · rw [ReservesEnough, if_pos (by decide)]
    decide

end Kraftwerk.Malloc
