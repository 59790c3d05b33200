import Kraftwerk.Paging.EntryBits
import Mathlib.Tactic.IntervalCases

set_option autoImplicit false

-- The three bit layouts of a page table entry: the constructor of page_entry, its conversion
-- to a word, and flags_to_x86_64.
namespace Kraftwerk.Paging

def PageFlags.entry (flags : PageFlags) (address : Addr) : PageEntry where
  address := address
  global := flags.global
  pageSize := flags.pageSize
  dirty := flags.dirty
  accessed := flags.accessed
  cacheDisabled := flags.cacheDisabled
  writeThrough := flags.writeThrough
  userAccessible := flags.userAccessible
  rwAccessible := flags.rwAccessible
  present := flags.present

-- The bits 9 to 11, which no flag of an entry has.
def unusedBits : BitVec 64 := 0b111 <<< 9

def pageBoundary (address : Addr) : Addr := (address >>> 12) <<< 12

structure LayoutsAgree : Prop where
  word : ∀ rawValue : BitVec 64, (PageEntry.ofRaw rawValue).toRaw = rawValue &&& ~~~unusedBits
  entry : ∀ entry : PageEntry, PageEntry.ofRaw entry.toRaw = { entry with address := pageBoundary entry.address }
  flags : ∀ (flags : PageFlags) (address : Addr), (flagsToX8664 flags).setWidth 64 = (flags.entry address).toRaw &&& 0xFFF

theorem masked_bit (address : Addr) (index : Nat) (inside : index < 64) :
    (address &&& ~~~0xFFF).getLsbD index = (address.getLsbD index && decide (12 ≤ index)) := by
  rw [BitVec.getLsbD_and, BitVec.getLsbD_not, page_mask_bit, decide_eq_true inside, Bool.true_and, ← decide_not]
  simp only [Nat.not_lt]

theorem page_boundary_masked (address : Addr) : pageBoundary address = address &&& ~~~0xFFF := by
  apply BitVec.eq_of_getLsbD_eq
  intro index inside
  rw [masked_bit address index inside, pageBoundary, BitVec.getLsbD_shiftLeft, BitVec.getLsbD_ushiftRight]
  by_cases low : index < 12
  · simp [low]
  · have whole : 12 + (index - 12) = index := by omega
    simp [low, inside, whole, Nat.le_of_not_lt low]

theorem unused_bit (index : Nat) (inside : index < 64) : unusedBits.getLsbD index = decide (9 ≤ index ∧ index < 12) := by
  revert index
  decide

theorem raw_bit_above (entry : PageEntry) (index : Nat) (inside : index < 64) (above : 12 ≤ index) :
    entry.toRaw.getLsbD index = entry.address.getLsbD index := by
  have bits := congrArg (fun word => BitVec.getLsbD word index) (raw_address entry)
  simp only [masked_bit _ index inside, above, decide_true, Bool.and_true] at bits
  exact bits

theorem raw_round_trip (rawValue : BitVec 64) : (PageEntry.ofRaw rawValue).toRaw = rawValue &&& ~~~unusedBits := by
  apply BitVec.eq_of_getLsbD_eq
  intro index inside
  rw [BitVec.getLsbD_and, BitVec.getLsbD_not, unused_bit index inside, decide_eq_true inside, Bool.true_and]
  by_cases low : index < 12
  · rw [raw_flag_get _ index low]
    simp (disch := decide) only [PageEntry.ofRaw, tested_bit]
    interval_cases index
    all_goals simp
  · have above := Nat.le_of_not_lt low
    rw [raw_bit_above _ index inside above, PageEntry.ofRaw, masked_bit rawValue index inside]
    simp [above, low]

-- flags_to_x86_64 sets the bits that the conversion of an entry sets.
theorem flags_agree (flags : PageFlags) (address : Addr) :
    (flagsToX8664 flags).setWidth 64 = (flags.entry address).toRaw &&& 0xFFF := by
  apply BitVec.eq_of_getLsbD_eq
  intro index inside
  rw [BitVec.getLsbD_setWidth, BitVec.getLsbD_and, page_mask_bit]
  by_cases low : index < 12
  · have narrow : index < 32 := by omega
    rw [raw_flag_get _ index low]
    simp only [flagsToX8664, BitVec.getLsbD_or, flag_bit_get _ _ _ narrow, PageFlags.entry]
    simp [low, inside]
  · have none : (flagsToX8664 flags).getLsbD index = false :=
      Nat.testBit_lt_two_pow (Nat.lt_of_lt_of_le (flags_to_x8664_small flags)
        (Nat.pow_le_pow_right (by decide) (Nat.le_of_not_lt low)))
    simp [none, low]

theorem layouts_agree : LayoutsAgree where
  word := raw_round_trip
  entry := fun entry => by rw [page_boundary_masked, page_entry_round_trip]
  flags := flags_agree

example : (PageEntry.ofRaw 0xFFFFFFFFFFFFFFFF).toRaw = 0xFFFFFFFFFFFFF1FF := by decide

end Kraftwerk.Paging
