import Mathlib.Algebra.Group.Nat.Defs
import Mathlib.Data.Nat.Bitwise

set_option autoImplicit false

-- The bits of a word of a fixed width under masks that set and clear them.
namespace WordBits

section
variable (width word mask : Nat)

theorem test_bit_clear (index : Nat) (fits : mask < 2 ^ width) :
    (word &&& (2 ^ width - 1 - mask)).testBit index = (word.testBit index && (decide (index < width) && !mask.testBit index)) := by
  rw [Nat.testBit_and, Nat.sub_sub, Nat.add_comm 1 mask, Nat.testBit_two_pow_sub_succ fits]

theorem test_bit_upper (low index : Nat) (inside : low ≤ width) :
    (2 ^ width - 2 ^ low).testBit index = (decide (index < width) && decide (low ≤ index)) := by
  have positive := Nat.two_pow_pos low
  have fits : 2 ^ low - 1 < 2 ^ width := Nat.lt_of_lt_of_le (by omega) (Nat.pow_le_pow_right (by decide) inside)
  have ones : 2 ^ low = 2 ^ low - 1 + 1 := by omega
  rw [ones, Nat.testBit_two_pow_sub_succ fits, Nat.testBit_two_pow_sub_one, ← decide_not]
  simp only [Nat.not_lt]

theorem and_eq_zero_iff : word &&& mask = 0 ↔ ∀ index, mask.testBit index = true → word.testBit index = false := by
  constructor
  · intro zero index masked
    have bit := congrArg (fun value => Nat.testBit value index) zero
    rwa [Nat.testBit_and, masked, Bool.and_true, Nat.zero_testBit] at bit
  · intro clear
    apply Nat.eq_of_testBit_eq
    intro index
    rw [Nat.testBit_and, Nat.zero_testBit]
    cases masked : mask.testBit index with
    | false => exact Bool.and_false _
    | true => rw [clear index masked, Bool.false_and]

-- Bits that were clear and have been set are cleared again.
theorem or_clear (apart : word &&& mask = 0) (fits : word < 2 ^ width) (maskFits : mask < 2 ^ width) :
    (word ||| mask) &&& (2 ^ width - 1 - mask) = word := by
  apply Nat.eq_of_testBit_eq
  intro index
  rw [test_bit_clear width _ mask index maskFits, Nat.testBit_or]
  by_cases inside : index < width
  · cases masked : mask.testBit index with
    | false => simp [inside]
    | true => simp [(and_eq_zero_iff word mask).mp apart index masked]
  · have above : word.testBit index = false :=
      Nat.testBit_lt_two_pow (Nat.lt_of_lt_of_le fits (Nat.pow_le_pow_right (by decide) (Nat.le_of_not_lt inside)))
    simp [inside, above]

end

end WordBits
