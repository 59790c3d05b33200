import Kraftwerk.Pmem.Blocks

set_option autoImplicit false

namespace Kraftwerk.Pmem

open Cover

def AllListed (keep : Block → Prop) (lists : FreeLists) : Prop :=
  ∀ order, order ≤ allocMaxOrder → ∀ start ∈ lists order, keep (order, start)

-- Splitting a block by the XOR of fill_free_list keeps the property on both parts.
def SplitClosed (keep : Block → Prop) : Prop :=
  ∀ order start, order < allocMaxOrder → keep (order + 1, start) →
    keep (order, start) ∧ keep (order, start ^^^ intBit (order + 12))

theorem all_listed_set (keep : Block → Prop) (lists : FreeLists) (order : Nat) (starts : List Addr)
    (all : AllListed keep lists) (kept : ∀ start ∈ starts, keep (order, start)) :
    AllListed keep (setList lists order starts) := by
  intro other small start member
  by_cases same : other = order
  · subst same
    exact kept start (by simpa using member)
  · rw [set_list_other lists order other starts same] at member
    exact all other small start member

theorem aligned_split_closed : SplitClosed Aligned := by
  intro order start small aligned
  have lower := aligned_below order start aligned
  exact ⟨lower, buddy_aligned start order (Nat.le_of_lt small) lower⟩

theorem get_block_from_stack_some (lists after : FreeLists) (order : Nat) (start : Addr)
    (popped : getBlockFromStack lists order = some (start, after)) :
    ∃ rest, lists order = start :: rest ∧ after = setList lists order rest := by
  unfold getBlockFromStack at popped
  split at popped
  · cases popped
  · rename_i blk rest found
    cases popped
    exact ⟨rest, found, rfl⟩

theorem fill_free_list_cases (climb order : Nat) (lists filled : FreeLists)
    (done : fillFreeListAt (climb + 1) order lists = some filled) :
    (lists order ≠ [] ∧ filled = lists) ∨
      (lists order = [] ∧ ∃ above oldBlock rest, fillFreeListAt climb (order + 1) lists = some above ∧
        above (order + 1) = oldBlock :: rest ∧
        filled = setList (setList above (order + 1) rest) order [oldBlock ^^^ intBit (order + 12), oldBlock]) := by
  rw [fillFreeListAt] at done
  by_cases present : lists order ≠ []
  · rw [if_pos present] at done
    exact .inl ⟨present, (Option.some.inj done).symm⟩
  · rw [if_neg present] at done
    obtain ⟨above, aboveEq, popMap⟩ := Option.bind_eq_some_iff.mp done
    obtain ⟨⟨oldBlock, popped⟩, pop, filledEq⟩ := Option.map_eq_some_iff.mp popMap
    obtain ⟨rest, headEq, rfl⟩ := get_block_from_stack_some above popped (order + 1) oldBlock pop
    exact .inr ⟨not_not.mp present, above, oldBlock, rest, aboveEq, headEq, filledEq.symm⟩

theorem fill_free_list_below (climb order : Nat) (lists filled : FreeLists)
    (done : fillFreeListAt climb order lists = some filled) (lower : Nat) (below : lower < order) :
    filled lower = lists lower := by
  induction climb generalizing order filled with
  | zero => exact congrFun (Option.some.inj done).symm lower
  | succ climb ih =>
      rcases fill_free_list_cases climb order lists filled done with ⟨_, rfl⟩ | ⟨_, above, oldBlock, rest, aboveEq, _, rfl⟩
      · rfl
      · rw [set_list_other _ _ _ _ (by omega), set_list_other _ _ _ _ (by omega)]
        exact ih (order + 1) above aboveEq (by omega)

theorem fill_free_list_all (keep : Block → Prop) (splits : SplitClosed keep) (climb order : Nat) (lists filled : FreeLists)
    (range : climb + order = allocMaxOrder) (all : AllListed keep lists)
    (done : fillFreeListAt climb order lists = some filled) : AllListed keep filled := by
  induction climb generalizing order filled with
  | zero => exact Option.some.inj done ▸ all
  | succ climb ih =>
      rcases fill_free_list_cases climb order lists filled done with
        ⟨_, rfl⟩ | ⟨_, above, oldBlock, rest, aboveEq, headEq, rfl⟩
      · exact all
      · have aboveAll := ih (order + 1) above (by omega) aboveEq
        have oldKept : keep (order + 1, oldBlock) := aboveAll (order + 1) (by omega) oldBlock (by simp [headEq])
        have parts := splits order oldBlock (by omega) oldKept
        apply all_listed_set
        · apply all_listed_set keep above (order + 1) rest aboveAll
          intro start member
          exact aboveAll (order + 1) (by omega) start (by simp [headEq, member])
        · simp only [List.forall_mem_cons]
          exact ⟨parts.2, parts.1, by simp⟩

theorem cover_halves (order : Nat) (start : Addr) (byte : Nat) (small : order < allocMaxOrder)
    (aligned : Aligned (order + 1, start)) :
    cover bytes (level order [start ^^^ intBit (order + 12), start]) byte = cover bytes (level (order + 1) [start]) byte := by
  have lower := aligned_below order start aligned
  have whole := bytes_split start order (Nat.le_of_lt small) lower start aligned rfl
  have apart := Set.disjoint_left.mp (bytes_buddy_disjoint start order (Nat.le_of_lt small) lower)
  have inWhole : byte ∈ bytes (order + 1, start) ↔
      byte ∈ bytes (order, start) ∨ byte ∈ bytes (order, start ^^^ intBit (order + 12)) := by
    rw [whole, Set.mem_union]
  simp only [level, List.map_cons, List.map_nil, cover_cons, cover_nil]
  by_cases inLower : byte ∈ bytes (order, start)
  · simp [inWhole, inLower, apart inLower]
  · by_cases inUpper : byte ∈ bytes (order, start ^^^ intBit (order + 12))
    · simp [inWhole, inLower, inUpper]
    · simp [inWhole, inLower, inUpper]

theorem fill_free_list_cover (climb order : Nat) (lists filled : FreeLists) (byte : Nat)
    (range : climb + order = allocMaxOrder) (aligned : AllListed Aligned lists)
    (done : fillFreeListAt climb order lists = some filled) : freeCover filled byte = freeCover lists byte := by
  induction climb generalizing order filled with
  | zero => rw [Option.some.inj done]
  | succ climb ih =>
      rcases fill_free_list_cases climb order lists filled done with
        ⟨_, rfl⟩ | ⟨empty, above, oldBlock, rest, aboveEq, headEq, rfl⟩
      · rfl
      · have aboveAligned := fill_free_list_all Aligned aligned_split_closed climb (order + 1) lists above (by omega) aligned aboveEq
        have oldAligned : Aligned (order + 1, oldBlock) := aboveAligned (order + 1) (by omega) oldBlock (by simp [headEq])
        have stillEmpty : above order = [] := (fill_free_list_below climb (order + 1) lists above aboveEq order (by omega)).trans empty
        have pop := free_cover_pop above (order + 1) oldBlock rest byte (by omega) headEq
        have push := free_cover_set (setList above (order + 1) rest) order
          [oldBlock ^^^ intBit (order + 12), oldBlock] byte (by omega)
        have halves := cover_halves order oldBlock byte (by omega) oldAligned
        have before := ih (order + 1) above (by omega) aboveEq
        rw [set_list_other above (order + 1) order rest (by omega), stillEmpty, halves] at push
        simp only [level, List.map_nil, List.map_cons, cover_nil] at push
        omega

-- Some list at or above the order holds a block: the recursion then stops at a
-- non-empty list, and every level below it is given two blocks.
theorem fill_free_list_returns (climb order : Nat) (lists : FreeLists) (range : climb + order = allocMaxOrder)
    (supply : ∃ source, order ≤ source ∧ source ≤ allocMaxOrder ∧ lists source ≠ []) :
    ∃ filled, fillFreeListAt climb order lists = some filled ∧ filled order ≠ [] := by
  induction climb generalizing order with
  | zero =>
      obtain ⟨source, low, high, present⟩ := supply
      obtain rfl : source = order := by omega
      exact ⟨lists, rfl, present⟩
  | succ climb ih =>
      rw [fillFreeListAt]
      by_cases present : lists order ≠ []
      · exact ⟨lists, if_pos present, present⟩
      · have higher : ∃ source, order + 1 ≤ source ∧ source ≤ allocMaxOrder ∧ lists source ≠ [] := by
          obtain ⟨source, low, high, sourcePresent⟩ := supply
          have different : source ≠ order := fun same => present (same ▸ sourcePresent)
          exact ⟨source, by omega, high, sourcePresent⟩
        obtain ⟨above, aboveEq, abovePresent⟩ := ih (order + 1) (by omega) higher
        obtain ⟨oldBlock, rest, headEq⟩ := List.exists_cons_of_ne_nil abovePresent
        refine ⟨setList (setList above (order + 1) rest) order [oldBlock ^^^ intBit (order + 12), oldBlock], ?_, by simp⟩
        simp [present, aboveEq, getBlockFromStack, headEq]

theorem allocate_some (nPages : Nat) (lists after : FreeLists) (start : Addr) (fits : nPages ≤ 2 ^ allocMaxOrder)
    (done : allocate nPages lists = some (start, after)) :
    ∃ filled rest, fillFreeList (getAllocOrder nPages) lists = some filled ∧
      filled (getAllocOrder nPages) = start :: rest ∧ after = setList filled (getAllocOrder nPages) rest := by
  rw [allocate, if_neg (by omega)] at done
  obtain ⟨filled, filledEq, pop⟩ := Option.bind_eq_some_iff.mp done
  obtain ⟨rest, headEq, afterEq⟩ := get_block_from_stack_some filled after _ start pop
  exact ⟨filled, rest, filledEq, headEq, afterEq⟩

theorem allocate_returns (nPages : Nat) (lists : FreeLists) (fits : nPages ≤ 2 ^ allocMaxOrder)
    (supply : ∃ source, getAllocOrder nPages ≤ source ∧ source ≤ allocMaxOrder ∧ lists source ≠ []) :
    ∃ start after, allocate nPages lists = some (start, after) := by
  have small := get_alloc_order_le nPages fits
  obtain ⟨filled, filledEq, present⟩ :=
    fill_free_list_returns (allocMaxOrder - getAllocOrder nPages) (getAllocOrder nPages) lists (by omega) supply
  obtain ⟨start, rest, headEq⟩ := List.exists_cons_of_ne_nil present
  refine ⟨start, setList filled (getAllocOrder nPages) rest, ?_⟩
  rw [allocate, if_neg (by omega), fillFreeList, filledEq]
  simp [getBlockFromStack, headEq]

theorem allocate_all (keep : Block → Prop) (splits : SplitClosed keep) (nPages : Nat) (lists after : FreeLists) (start : Addr)
    (fits : nPages ≤ 2 ^ allocMaxOrder) (all : AllListed keep lists) (done : allocate nPages lists = some (start, after)) :
    AllListed keep after ∧ keep (getAllocOrder nPages, start) := by
  obtain ⟨filled, rest, filledEq, headEq, rfl⟩ := allocate_some nPages lists after start fits done
  have small := get_alloc_order_le nPages fits
  have filledAll := fill_free_list_all keep splits _ _ lists filled (by omega) all filledEq
  refine ⟨?_, filledAll _ small start (by simp [headEq])⟩
  apply all_listed_set keep filled _ rest filledAll
  exact fun other member => filledAll _ small other (by simp [headEq, member])

theorem allocate_cover (nPages : Nat) (lists after : FreeLists) (start : Addr) (byte : Nat)
    (fits : nPages ≤ 2 ^ allocMaxOrder) (aligned : AllListed Aligned lists)
    (done : allocate nPages lists = some (start, after)) :
    freeCover after byte + cover bytes [(getAllocOrder nPages, start)] byte = freeCover lists byte := by
  obtain ⟨filled, rest, filledEq, headEq, rfl⟩ := allocate_some nPages lists after start fits done
  have small := get_alloc_order_le nPages fits
  have same := fill_free_list_cover _ _ lists filled byte (by omega) aligned filledEq
  have pop := free_cover_pop filled (getAllocOrder nPages) start rest byte small headEq
  omega

-- One free block and nothing else.
def single (order : Nat) (start : Addr) : FreeLists := setList (fun _ => []) order [start]

theorem single_aligned (order : Nat) (start : Addr) (aligned : Aligned (order, start)) :
    AllListed Aligned (single order start) := by
  apply all_listed_set
  · exact fun _ _ _ member => by cases member
  · exact fun other member => List.mem_singleton.mp member ▸ aligned

end Kraftwerk.Pmem
