import Kraftwerk.Paging.PageManip

set_option autoImplicit false

-- The packed word of a page table entry: its address above bit 12 and its flags below.
namespace Kraftwerk.Paging

theorem page_mask_bit (index : Nat) : (0xFFF : BitVec 64).getLsbD index = decide (index < 12) := by
  rw [BitVec.getLsbD, show (0xFFF : BitVec 64).toNat = 2 ^ 12 - 1 from rfl, Nat.testBit_two_pow_sub_one]

theorem low_bit (word : BitVec 64) (small : word.toNat < 2 ^ 12) (index : Nat) (high : 12 ≤ index) :
    word.getLsbD index = false :=
  Nat.testBit_lt_two_pow (Nat.lt_of_lt_of_le small (Nat.pow_le_pow_right (by decide) high))

section
variable (address word : BitVec 64)

theorem joined_address (small : word.toNat < 2 ^ 12) :
    ((address &&& ~~~0xFFF) ||| word) &&& ~~~0xFFF = address &&& ~~~0xFFF := by
  apply BitVec.eq_of_getLsbD_eq
  intro index inside
  simp only [BitVec.getLsbD_and, BitVec.getLsbD_or, BitVec.getLsbD_not, page_mask_bit, inside, decide_true, Bool.true_and]
  by_cases low : index < 12
  · simp [low]
  · simp [low, low_bit word small index (Nat.le_of_not_lt low)]

theorem joined_flags (small : word.toNat < 2 ^ 12) : ((address &&& ~~~0xFFF) ||| word) &&& 0xFFF = word := by
  apply BitVec.eq_of_getLsbD_eq
  intro index inside
  simp only [BitVec.getLsbD_and, BitVec.getLsbD_or, BitVec.getLsbD_not, page_mask_bit, inside, decide_true, Bool.true_and]
  by_cases low : index < 12
  · simp [low]
  · simp [low, low_bit word small index (Nat.le_of_not_lt low)]

theorem flags_small : (address &&& 0xFFF).toNat < 2 ^ 12 := by
  rw [BitVec.toNat_and]
  exact Nat.lt_of_le_of_lt Nat.and_le_right (by decide)

end

theorem flag_bit_small {width : Nat} (flag : Bool) (index : Nat) (low : index < 12) :
    (flagBit flag index : BitVec width).toNat < 2 ^ 12 := by
  have power : 2 ^ index < 2 ^ 12 := Nat.pow_lt_pow_right (by decide) low
  have bit : (if flag then (1 : BitVec width) else 0).toNat ≤ 1 := by
    cases flag with
    | false => simp
    | true => exact Nat.le_trans (Nat.le_of_eq (BitVec.toNat_ofNat 1 width)) (Nat.mod_le 1 _)
  rw [flagBit, BitVec.toNat_shiftLeft, Nat.shiftLeft_eq]
  refine Nat.lt_of_le_of_lt (Nat.mod_le _ _) (Nat.lt_of_le_of_lt (Nat.mul_le_mul_right _ bit) ?_)
  rwa [Nat.one_mul]

theorem or_small {width : Nat} (left right : BitVec width) (first : left.toNat < 2 ^ 12) (second : right.toNat < 2 ^ 12) :
    (left ||| right).toNat < 2 ^ 12 := by
  rw [BitVec.toNat_or]
  exact Nat.or_lt_two_pow first second

theorem flags_to_x8664_small (flags : PageFlags) : (flagsToX8664 flags).toNat < 2 ^ 12 := by
  have bit : ∀ flag index, index < 12 → (flagBit flag index : BitVec 32).toNat < 2 ^ 12 := flag_bit_small
  rw [flagsToX8664]
  repeat' apply or_small
  · decide
  all_goals exact bit _ _ (by decide)

theorem joined_frame (page bits : BitVec 64) (whole : frame page = page) (low : bits &&& 0x000FFFFFFFFFF000 = 0) :
    frame (page ||| bits) = page := by
  rw [frame] at whole ⊢
  apply BitVec.eq_of_getLsbD_eq
  intro index inside
  have none : (bits.getLsbD index && (0x000FFFFFFFFFF000 : BitVec 64).getLsbD index) = false := by
    rw [← BitVec.getLsbD_and, low]
    exact BitVec.getLsbD_zero
  rw [BitVec.getLsbD_and, BitVec.getLsbD_or, Bool.and_or_distrib_right, none, Bool.or_false, ← BitVec.getLsbD_and, whole]

-- An entry that links a table: the page of the table, with the bits for present and global.
theorem linked_entry (table : Addr) (whole : frame table = table) :
    present (table ||| 0x101) = true ∧ huge (table ||| 0x101) = false ∧ frame (table ||| 0x101) = table := by
  refine ⟨?_, ?_, joined_frame table 0x101 whole (by decide)⟩
  · rw [present, BitVec.getLsbD_or]
    exact Bool.or_true _
  · rw [huge, BitVec.getLsbD_or, ← whole, frame, BitVec.getLsbD_and,
      show (0x000FFFFFFFFFF000 : BitVec 64).getLsbD 7 = false by decide, Bool.and_false]
    decide

-- An entry that maps a new page, with the bit for present only.
theorem demand_entry (page : Addr) (whole : frame page = page) :
    present ((page &&& ~~~0xFFF) ||| 0x1) = true ∧ frame ((page &&& ~~~0xFFF) ||| 0x1) = page := by
  have masked : page &&& ~~~0xFFF = page := by
    rw [← whole, frame, BitVec.and_assoc]
    exact congrArg (page &&& ·) (by decide : (0x000FFFFFFFFFF000 : BitVec 64) &&& ~~~0xFFF = 0x000FFFFFFFFFF000)
  refine ⟨?_, ?_⟩
  · rw [present, BitVec.getLsbD_or]
    exact Bool.or_true _
  · rw [masked]
    exact joined_frame page 0x1 whole (by decide)

theorem tested_bit (word : BitVec 64) (index : Nat) (inside : index < 64) :
    (word &&& (1#64 <<< index) != 0) = word.getLsbD index := by
  have mask : ∀ other, (1#64 <<< index).getLsbD other = decide (other = index) := by
    intro other
    rw [BitVec.getLsbD_shiftLeft, BitVec.getLsbD_one]
    by_cases same : other = index
    · simp [same, inside]
    · by_cases below : other < index
      · simp [same, below]
      · have apart : other - index ≠ 0 := by omega
        simp [same, apart]
  cases bit : word.getLsbD index with
  | false =>
      have zero : word &&& (1#64 <<< index) = 0 := by
        apply BitVec.eq_of_getLsbD_eq
        intro other _
        rw [BitVec.getLsbD_and, mask]
        by_cases same : other = index
        · simp [same, bit]
        · simp [same]
      rw [zero]
      rfl
  | true =>
      have nonzero : word &&& (1#64 <<< index) ≠ 0 := by
        intro zero
        have found := congrArg (fun value => BitVec.getLsbD value index) zero
        simp only [BitVec.getLsbD_and, mask, bit] at found
        simp at found
      exact bne_iff_ne.mpr nonzero

theorem flag_bit_get {width : Nat} (flag : Bool) (index other : Nat) (inside : other < width) :
    (flagBit flag index : BitVec width).getLsbD other = (flag && decide (other = index)) := by
  rw [flagBit]
  cases flag with
  | false => simp
  | true =>
      rw [if_pos rfl, BitVec.getLsbD_shiftLeft]
      by_cases same : other = index
      · subst same
        have positive : 0 < width := Nat.zero_lt_of_lt inside
        simp [inside, positive]
      · by_cases below : other < index
        · simp [same, below]
        · have apart : other - index ≠ 0 := by omega
          simp [same, below, BitVec.getLsbD_one, apart]

theorem raw_flag_get (entry : PageEntry) (index : Nat) (low : index < 12) :
    entry.toRaw.getLsbD index = ((entry.global && decide (index = 8)) || (entry.pageSize && decide (index = 7)) ||
      (entry.dirty && decide (index = 6)) || (entry.accessed && decide (index = 5)) ||
      (entry.cacheDisabled && decide (index = 4)) || (entry.writeThrough && decide (index = 3)) ||
      (entry.userAccessible && decide (index = 2)) || (entry.rwAccessible && decide (index = 1)) ||
      (entry.present && decide (index = 0))) := by
  have inside : index < 64 := by omega
  have address : (entry.address &&& ~~~0xFFF).getLsbD index = false := by
    rw [BitVec.getLsbD_and, BitVec.getLsbD_not, page_mask_bit, decide_eq_true low, Bool.not_true, Bool.and_false, Bool.and_false]
  simp only [PageEntry.toRaw, BitVec.getLsbD_or, address, flag_bit_get _ _ _ inside, Bool.false_or]

theorem raw_address (entry : PageEntry) : entry.toRaw &&& ~~~0xFFF = entry.address &&& ~~~0xFFF := by
  have bit : ∀ flag index, index < 12 → (flagBit flag index : BitVec 64).toNat < 2 ^ 12 := flag_bit_small
  rw [PageEntry.toRaw]
  simp only [BitVec.or_assoc]
  refine joined_address entry.address _ ?_
  repeat' apply or_small
  all_goals exact bit _ _ (by decide)

-- A page entry comes back from its packed form with its address cut to a page.
theorem page_entry_round_trip (entry : PageEntry) :
    PageEntry.ofRaw entry.toRaw = { entry with address := entry.address &&& ~~~0xFFF } := by
  simp (disch := decide) only [PageEntry.ofRaw, raw_address, tested_bit, raw_flag_get]
  simp

end Kraftwerk.Paging
