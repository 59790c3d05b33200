import Kraftwerk.Pmem.Allocate
import Kraftwerk.Pmem.Checked

set_option autoImplicit false

-- What allocate returns and leaves, list by list.
namespace Kraftwerk.Pmem

-- Splitting the block of order j down to order i hands on the upper half every time.
def splitStart (block : Addr) (j i : Nat) : Addr := block + BitVec.ofNat 64 (2 ^ (j + 12) - 2 ^ (i + 12))

theorem split_start_self (block : Addr) (j : Nat) : splitStart block j j = block := by
  rw [splitStart, Nat.sub_self]
  exact BitVec.add_zero block

theorem split_start_to_nat (block : Addr) (j i : Nat) (below : i ≤ j) (small : j ≤ allocMaxOrder) (aligned : Aligned (j, block)) :
    (splitStart block j i).toNat = block.toNat + 2 ^ (j + 12) - 2 ^ (i + 12) := by
  have sizes : 2 ^ (i + 12) ≤ 2 ^ (j + 12) := Nat.pow_le_pow_right (by decide) (by omega)
  have positive := Nat.two_pow_pos (i + 12)
  have ends : block.toNat + 2 ^ (j + 12) ≤ 2 ^ 64 := by
    obtain ⟨index, startEq⟩ := aligned
    have space : 2 ^ 64 = 2 ^ (j + 12) * 2 ^ (52 - j) := by
      rw [← Nat.pow_add]
      congr 1
      unfold allocMaxOrder at small
      omega
    have inside := block.isLt
    simp only at startEq
    rw [startEq, space] at inside
    rw [startEq, space, ← Nat.mul_succ]
    exact Nat.mul_le_mul_left _ (Nat.lt_of_mul_lt_mul_left inside)
  rw [splitStart, BitVec.toNat_add, BitVec.toNat_ofNat, Nat.mod_eq_of_lt (by omega), Nat.mod_eq_of_lt (by omega)]
  omega

theorem split_start_aligned (block : Addr) (j i : Nat) (below : i ≤ j) (small : j ≤ allocMaxOrder)
    (aligned : Aligned (j, block)) : Aligned (i, splitStart block j i) := by
  have divides : 2 ^ (i + 12) ∣ 2 ^ (j + 12) := Nat.pow_dvd_pow 2 (by omega)
  rw [Aligned, split_start_to_nat block j i below small aligned]
  exact Nat.dvd_sub (Nat.dvd_add (Nat.dvd_trans divides aligned) divides) (Nat.dvd_refl _)

theorem split_start_next (block : Addr) (j order : Nat) (below : order < j) (small : j ≤ allocMaxOrder)
    (aligned : Aligned (j, block)) :
    splitStart block j (order + 1) ^^^ intBit (order + 12) = splitStart block j order := by
  have whole := split_start_aligned block j (order + 1) below small aligned
  have here := split_start_to_nat block j (order + 1) below small aligned
  have next := split_start_to_nat block j order (Nat.le_of_lt below) small aligned
  have sizes : 2 ^ (order + 1 + 12) ≤ 2 ^ (j + 12) := Nat.pow_le_pow_right (by decide) (by omega)
  have double := next_order_size order
  have positive := Nat.two_pow_pos (order + 12)
  apply BitVec.eq_of_toNat_eq
  rw [buddy_above _ order (by omega) whole, here, next]
  omega

-- The lists after a fill at an order that found its block at order j: every list from the
-- order up to j holds what splitting leaves there.
structure FilledFrom (lists filled : FreeLists) (block : Addr) (tail : List Addr) (j order : Nat) : Prop where
  head : filled order = splitStart block j order :: if order = j then tail else [splitStart block j (order + 1)]
  source : order < j → filled j = tail
  between : ∀ i, order < i → i < j → filled i = [splitStart block j (i + 1)]
  rest : ∀ i, i < order ∨ j < i → filled i = lists i

theorem filled_source (lists : FreeLists) (block : Addr) (tail : List Addr) (j : Nat) (found : lists j = block :: tail) :
    FilledFrom lists lists block tail j j where
  head := by rw [found, split_start_self, if_pos rfl]
  source := fun below => absurd below (Nat.lt_irrefl j)
  between := fun i above below => absurd above (by omega)
  rest := fun _ _ => rfl

theorem filled_split (lists above : FreeLists) (block : Addr) (tail : List Addr) (j order : Nat) (below : order < j)
    (small : j ≤ allocMaxOrder) (aligned : Aligned (j, block)) (filled : FilledFrom lists above block tail j (order + 1)) :
    FilledFrom lists (setList (setList above (order + 1) (if order + 1 = j then tail else [splitStart block j (order + 2)]))
      order [splitStart block j (order + 1) ^^^ intBit (order + 12), splitStart block j (order + 1)]) block tail j order where
  head := by rw [set_list_same, split_start_next block j order below small aligned, if_neg (by omega)]
  source := by
    intro _
    rw [set_list_other _ _ _ _ (by omega)]
    by_cases next : order + 1 = j
    · rw [if_pos next, next, set_list_same]
    · rw [set_list_other _ _ _ _ (fun same => next same.symm)]
      exact filled.source (by omega)
  between := by
    intro i low high
    rw [set_list_other _ _ _ _ (by omega)]
    by_cases next : i = order + 1
    · subst next
      rw [set_list_same, if_neg (by omega)]
    · rw [set_list_other _ _ _ _ next]
      exact filled.between i (by omega) high
  rest := by
    intro i outside
    rw [set_list_other _ _ _ _ (by omega), set_list_other _ _ _ _ (by omega)]
    exact filled.rest i (by omega)

theorem fill_free_list_filled (climb order j : Nat) (lists : FreeLists) (block : Addr) (tail : List Addr)
    (range : climb + order = allocMaxOrder) (low : order ≤ j) (small : j ≤ allocMaxOrder) (aligned : Aligned (j, block))
    (found : lists j = block :: tail) (empty : ∀ i, order ≤ i → i < j → lists i = []) :
    ∃ filled, fillFreeListAt climb order lists = some filled ∧ FilledFrom lists filled block tail j order := by
  induction climb generalizing order with
  | zero =>
      obtain rfl : order = j := by omega
      exact ⟨lists, rfl, filled_source lists block tail order found⟩
  | succ climb ih =>
      rw [fillFreeListAt]
      by_cases here : order = j
      · subst here
        exact ⟨lists, if_pos (by simp [found]), filled_source lists block tail order found⟩
      · obtain ⟨above, aboveEq, filled⟩ := ih (order + 1) (by omega) (by omega) (fun i low => empty i (by omega))
        have none : ¬ lists order ≠ [] := not_not.mpr (empty order (Nat.le_refl order) (by omega))
        refine ⟨_, ?_, filled_split lists above block tail j order (by omega) small aligned filled⟩
        rw [if_neg none, aboveEq, Option.bind_some, getBlockFromStack, filled.head]
        rfl

theorem allocate_exact (nPages k j : Nat) (lists : FreeLists) (block : Addr) (tail : List Addr) (some : 1 ≤ nPages)
    (fits : nPages ≤ 2 ^ allocMaxOrder) (aligned : AllListed Aligned lists)
    (covers : nPages ≤ 2 ^ k) (least : ∀ smaller < k, 2 ^ smaller < nPages)
    (low : k ≤ j) (small : j ≤ allocMaxOrder) (found : lists j = block :: tail) (empty : ∀ i, k ≤ i → i < j → lists i = []) :
    ∃ start after, allocate nPages lists = .some (start, after) ∧
      start.toNat = block.toNat + 2 ^ (j + 12) - 2 ^ (k + 12) ∧ 2 ^ (k + 12) ∣ start.toNat ∧ nPages * 4096 ≤ 2 ^ (k + 12) ∧
      after j = tail ∧
      (∀ i, k ≤ i → i < j → ∃ left, after i = [left] ∧ left.toNat = block.toNat + 2 ^ (j + 12) - 2 ^ (i + 13)) ∧
      ∀ i, i < k ∨ j < i → after i = lists i := by
  have few : nPages < 2 ^ 19 := Nat.lt_of_le_of_lt fits (by decide)
  obtain ⟨enough, minimal⟩ := get_alloc_order_least nPages some few
  obtain rfl : k = getAllocOrder nPages := by
    apply Nat.le_antisymm
    · exact Nat.le_of_not_lt (fun less => absurd (least _ less) (Nat.not_lt.mpr enough))
    · exact Nat.le_of_not_lt (fun less => absurd (minimal _ less) (Nat.not_lt.mpr covers))
  have headAligned : Aligned (j, block) := aligned j small block (by simp [found])
  obtain ⟨filled, fillEq, parts⟩ :=
    fill_free_list_filled (allocMaxOrder - getAllocOrder nPages) (getAllocOrder nPages) j lists block tail (by omega) low small
      headAligned found empty
  refine ⟨splitStart block j (getAllocOrder nPages), setList filled (getAllocOrder nPages)
      (if getAllocOrder nPages = j then tail else [splitStart block j (getAllocOrder nPages + 1)]), ?_,
    split_start_to_nat block j _ low small headAligned, split_start_aligned block j _ low small headAligned, ?_, ?_,
    fun i above below => ?_, fun i outside => ?_⟩
  · rw [allocate, if_neg (by omega), fillFreeList, fillEq, Option.bind_some, getBlockFromStack, parts.head]
  · rw [Nat.pow_add]
    exact Nat.mul_le_mul_right _ covers
  · by_cases whole : getAllocOrder nPages = j
    · rw [if_pos whole, ← whole, set_list_same]
    · rw [set_list_other _ _ _ _ (fun same => whole same.symm)]
      exact parts.source (by omega)
  · refine ⟨splitStart block j (i + 1), ?_, split_start_to_nat block j (i + 1) below small headAligned⟩
    by_cases first : i = getAllocOrder nPages
    · rw [first, set_list_same, if_neg (by omega)]
    · rw [set_list_other _ _ _ _ first]
      exact parts.between i (by omega) below
  · rw [set_list_other _ _ _ _ (by omega)]
    exact parts.rest i outside

theorem allocate_three_exact : ∃ start after, allocate 3 (single 3 0x8000) = some (start, after) ∧
    start.toNat = 0xC000 ∧ 2 ^ 14 ∣ start.toNat ∧ 3 * 4096 ≤ 2 ^ 14 ∧ after 3 = [] ∧
    (∀ i, 2 ≤ i → i < 3 → ∃ left, after i = [left] ∧ left.toNat = 0x8000 + 2 ^ 15 - 2 ^ (i + 13)) ∧
    ∀ i, i < 2 ∨ 3 < i → after i = single 3 0x8000 i :=
  allocate_exact 3 2 3 (single 3 0x8000) 0x8000 [] (by decide) (by decide) (single_aligned 3 0x8000 ⟨1, rfl⟩) (by decide)
    (fun smaller below => by interval_cases smaller <;> decide) (by decide) (by decide) rfl
    (fun i _ high => set_list_other _ _ _ _ (Nat.ne_of_lt high))

def Exhausted (lists : FreeLists) (order : Nat) : Prop := ∀ i, order ≤ i → i ≤ allocMaxOrder → lists i = []

-- What the request for more than 2^ALLOC_MAX_ORDER pages does.
def ReturnsNull (nPages : Nat) (lists : FreeLists) : Prop := allocateChecked nPages lists = .ok (0, lists)

-- The recursion stops at the top without a block, and the first pop of any level finds none.
theorem fill_exhausted (climb order : Nat) (lists : FreeLists) (range : climb + order = allocMaxOrder)
    (exhausted : Exhausted lists order) :
    (fillFreeListAt climb order lists).bind (fun filled => getBlockFromStack filled order) = none := by
  have here : lists order = [] := exhausted order (Nat.le_refl order) (by omega)
  induction climb generalizing order with
  | zero => simp [fillFreeListAt, getBlockFromStack, here]
  | succ climb ih =>
      have higher : Exhausted lists (order + 1) := fun i above => exhausted i (by omega)
      have above := ih (order + 1) (by omega) higher (higher (order + 1) (Nat.le_refl _) (by omega))
      rw [fillFreeListAt, if_neg (not_not.mpr here)]
      cases filled : fillFreeListAt climb (order + 1) lists with
      | none => rfl
      | some next =>
          rw [filled, Option.bind_some] at above
          rw [Option.bind_some, above]
          rfl

theorem exhaustion_faults (nPages : Nat) (lists : FreeLists) (fits : nPages ≤ 2 ^ allocMaxOrder)
    (exhausted : Exhausted lists (getAllocOrder nPages)) :
    ¬ ReturnsNull nPages lists ∧ allocateChecked nPages lists = .error .null := by
  have small := get_alloc_order_le nPages fits
  have fault : allocateChecked nPages lists = .error .null := by
    rw [allocate_checked, allocate, if_neg (by omega), fillFreeList,
      fill_exhausted (allocMaxOrder - getAllocOrder nPages) _ lists (by omega) exhausted]
    rfl
  refine ⟨fun returns => ?_, fault⟩
  rw [ReturnsNull, fault] at returns
  cases returns

theorem empty_lists_fault : ¬ ReturnsNull 1 (fun _ => []) ∧ allocateChecked 1 (fun _ => []) = .error .null :=
  exhaustion_faults 1 (fun _ => []) (by decide) (fun _ _ _ => rfl)

-- Four free pages are no help for a request of five.
theorem smaller_block_left_faults : Exhausted (single 2 0x4000) (getAllocOrder 5) ∧ ¬ ReturnsNull 5 (single 2 0x4000) := by
  have order : getAllocOrder 5 = 3 := by decide
  refine ⟨fun i above _ => set_list_other _ _ _ _ (by omega), fun returns => ?_⟩
  have fault : allocateChecked 5 (single 2 0x4000) = .error .null := rfl
  rw [ReturnsNull, fault] at returns
  cases returns

end Kraftwerk.Pmem
