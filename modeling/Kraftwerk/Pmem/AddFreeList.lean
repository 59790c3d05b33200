import Kraftwerk.Pmem.Allocate

set_option autoImplicit false

namespace Kraftwerk.Pmem

open Cover

-- The start add_free_list looks for at an order while the freed block moves up.
def buddyAt (blk : Addr) (order : Nat) : Addr := alignBlock blk order ^^^ intBit (order + 12)

-- The start the node carries when it is linked at the order where it stops. At
-- the top it keeps what the previous order left in it, or its own address.
def landing (blk : Addr) (order top : Nat) : Addr :=
  if top < allocMaxOrder then alignBlock blk top
  else if order < allocMaxOrder then alignBlock blk (allocMaxOrder - 1)
  else blk

theorem align_block_align_block (blk : Addr) (low high : Nat) (le : low ≤ high) (small : high ≤ allocMaxOrder) :
    alignBlock (alignBlock blk low) high = alignBlock blk high := by
  apply BitVec.eq_of_toNat_eq
  rw [align_block_to_nat _ high small, align_block_to_nat _ low (by omega), align_block_to_nat _ high small]
  congr 1
  obtain ⟨gap, rfl⟩ := Nat.exists_eq_add_of_le le
  rw [show low + gap + 12 = low + 12 + gap by omega, Nat.pow_add 2 (low + 12) gap, ← Nat.div_div_eq_div_mul,
    Nat.mul_div_cancel _ (Nat.two_pow_pos (low + 12)), ← Nat.div_div_eq_div_mul]

theorem buddy_at_align_block (blk : Addr) (low high : Nat) (le : low ≤ high) (small : high ≤ allocMaxOrder) :
    buddyAt (alignBlock blk low) high = buddyAt blk high := by
  rw [buddyAt, align_block_align_block blk low high le small, buddyAt]

theorem add_free_list_cases (climb order : Nat) (blk : Addr) (lists : FreeLists) :
    (buddyAt blk order ∉ lists order ∧
      addFreeListAt (climb + 1) order blk lists = setList lists order (alignBlock blk order :: lists order)) ∨
    (buddyAt blk order ∈ lists order ∧
      addFreeListAt (climb + 1) order blk lists =
        addFreeListAt climb (order + 1) (alignBlock blk order)
          (setList lists order ((lists order).erase (buddyAt blk order)))) := by
  by_cases found : buddyAt blk order ∈ lists order
  · have present : lists order ≠ [] := List.ne_nil_of_mem found
    refine .inr ⟨found, ?_⟩
    simp only [addFreeListAt, if_neg present]
    exact if_pos found
  · refine .inl ⟨found, ?_⟩
    by_cases empty : lists order = []
    · simp [addFreeListAt, empty]
    · simp only [addFreeListAt, if_neg empty]
      exact if_neg found

theorem landing_align_block (blk : Addr) (order top : Nat) (below : order < top) (high : top ≤ allocMaxOrder) :
    landing (alignBlock blk order) (order + 1) top = landing blk order top := by
  unfold landing
  by_cases belowTop : top < allocMaxOrder
  · rw [if_pos belowTop, if_pos belowTop, align_block_align_block blk order top (by omega) high]
  · rw [if_neg belowTop, if_neg belowTop, if_pos (show order < allocMaxOrder by omega)]
    by_cases nextBelow : order + 1 < allocMaxOrder
    · rw [if_pos nextBelow, align_block_align_block blk order _ (by omega) (by omega)]
    · rw [if_neg nextBelow, show order = allocMaxOrder - 1 by omega]

-- Everything add_free_list can do: it removes the buddies of the orders it
-- passes, links the block at the order where no buddy is listed, and leaves
-- every other list alone.
theorem add_free_list_lands (climb order : Nat) (blk : Addr) (lists : FreeLists) (range : climb + order = allocMaxOrder) :
    ∃ top, order ≤ top ∧ top ≤ allocMaxOrder ∧
      (∀ passed, order ≤ passed → passed < top → buddyAt blk passed ∈ lists passed) ∧
      (top < allocMaxOrder → buddyAt blk top ∉ lists top) ∧
      ∀ other, addFreeListAt climb order blk lists other =
        if order ≤ other ∧ other < top then (lists other).erase (buddyAt blk other)
        else if other = top then landing blk order top :: lists top
        else lists other := by
  induction climb generalizing order blk lists with
  | zero =>
      obtain rfl : order = allocMaxOrder := by omega
      refine ⟨allocMaxOrder, Nat.le_refl _, Nat.le_refl _, fun passed low high => by omega, fun below => by omega, ?_⟩
      intro other
      by_cases same : other = allocMaxOrder
      · subst same
        simp [addFreeListAt, landing]
      · rw [if_neg (by omega), if_neg same]
        exact set_list_other lists _ other _ same
  | succ climb ih =>
      rcases add_free_list_cases climb order blk lists with ⟨absent, linked⟩ | ⟨found, moved⟩
      · refine ⟨order, Nat.le_refl _, by omega, fun passed low high => by omega, fun _ => absent, ?_⟩
        intro other
        rw [linked]
        by_cases same : other = order
        · subst same
          have below : other < allocMaxOrder := by omega
          simp [landing, below]
        · rw [if_neg (by omega), if_neg same]
          exact set_list_other lists order other _ same
      · obtain ⟨top, low, high, passes, stops, result⟩ := ih (order + 1) (alignBlock blk order)
          (setList lists order ((lists order).erase (buddyAt blk order))) (by omega)
        have lands := landing_align_block blk order top (by omega) high
        refine ⟨top, by omega, high, ?_, ?_, ?_⟩
        · intro passed passedLow passedHigh
          by_cases same : passed = order
          · exact same ▸ found
          · have listedAbove := passes passed (by omega) passedHigh
            rwa [set_list_other _ _ _ _ same, buddy_at_align_block blk order passed (by omega) (by omega)] at listedAbove
        · intro belowTop
          have absent := stops belowTop
          rwa [set_list_other _ _ _ _ (by omega), buddy_at_align_block blk order top (by omega) high] at absent
        · intro other
          rw [moved, result other, lands, set_list_other lists order top _ (by omega)]
          by_cases same : other = order
          · subst same
            rw [if_neg (by omega), if_neg (by omega), if_pos (by omega), set_list_same]
          · rw [set_list_other lists order other _ same]
            by_cases between : order + 1 ≤ other ∧ other < top
            · rw [if_pos between, if_pos (by omega), buddy_at_align_block blk order other (by omega) (by omega)]
            · rw [if_neg between, if_neg (show ¬ (order ≤ other ∧ other < top) by omega)]

def placed (blk : Addr) (order : Nat) : Addr := if order < allocMaxOrder then alignBlock blk order else blk

-- A property of blocks that both buddies hand on to the block they are merged into.
def MergeClosed (keep : Block → Prop) : Prop :=
  ∀ order start, order < allocMaxOrder → Aligned (order, start) → keep (order, start) →
    keep (order, start ^^^ intBit (order + 12)) → keep (order + 1, placed start (order + 1))

theorem add_free_list_all (keep : Block → Prop) (merges : MergeClosed keep) (climb order : Nat) (blk : Addr)
    (lists : FreeLists) (range : climb + order = allocMaxOrder) (all : AllListed keep lists)
    (kept : keep (order, placed blk order)) : AllListed keep (addFreeListAt climb order blk lists) := by
  induction climb generalizing order blk lists with
  | zero =>
      rw [placed, if_neg (by omega)] at kept
      apply all_listed_set keep lists order _ all
      simp only [List.forall_mem_cons]
      exact ⟨kept, all order (by omega)⟩
  | succ climb ih =>
      rw [placed, if_pos (by omega)] at kept
      cases add_free_list_cases climb order blk lists with
      | inl stops =>
          rw [stops.2]
          apply all_listed_set keep lists order _ all
          simp only [List.forall_mem_cons]
          exact ⟨kept, all order (by omega)⟩
      | inr moves =>
          rw [moves.2]
          apply ih (order + 1) _ _ (by omega)
          · apply all_listed_set keep lists order _ all
            exact fun start member => all order (by omega) start (List.mem_of_mem_erase member)
          · exact merges order _ (by omega) (align_block_aligned blk order (by omega)) kept
              (all order (by omega) _ moves.1)

-- The freed block stays aligned if it moves up all the way.
def LandsAligned (blk : Addr) (order : Nat) (lists : FreeLists) : Prop :=
  (∀ passed, order ≤ passed → passed < allocMaxOrder → buddyAt blk passed ∈ lists passed) →
    Aligned (allocMaxOrder, landing blk order allocMaxOrder)

theorem lands_aligned_moves_up (order : Nat) (blk : Addr) (lists : FreeLists) (starts : List Addr)
    (below : order < allocMaxOrder) (found : buddyAt blk order ∈ lists order) (lands : LandsAligned blk order lists) :
    LandsAligned (alignBlock blk order) (order + 1) (setList lists order starts) := by
  intro passes
  have carried : landing (alignBlock blk order) (order + 1) allocMaxOrder = landing blk order allocMaxOrder := by
    unfold landing
    rw [if_neg (Nat.lt_irrefl _), if_neg (Nat.lt_irrefl _), if_pos below]
    by_cases nextBelow : order + 1 < allocMaxOrder
    · rw [if_pos nextBelow, align_block_align_block blk order _ (by omega) (by omega)]
    · rw [if_neg nextBelow, show order = allocMaxOrder - 1 by omega]
  rw [carried]
  apply lands
  intro passed low high
  by_cases same : passed = order
  · exact same ▸ found
  · have listedAbove := passes passed (by omega) high
    rwa [set_list_other _ _ _ _ same, buddy_at_align_block blk order passed (by omega) (by omega)] at listedAbove

theorem lands_aligned_at_top (order : Nat) (blk : Addr) (lists : FreeLists) (found : buddyAt blk order ∈ lists order)
    (lands : LandsAligned blk order lists) (last : order + 1 = allocMaxOrder) :
    Aligned (allocMaxOrder, alignBlock blk order) := by
  have aligned := lands (fun passed low high => by
    obtain rfl : passed = order := by omega
    exact found)
  rwa [landing, if_neg (Nat.lt_irrefl _), if_pos (by omega), show allocMaxOrder - 1 = order by omega] at aligned

-- The merged block is the block and its buddy together, at whichever half it starts.
theorem cover_merge (order : Nat) (blk : Addr) (byte : Nat) (below : order < allocMaxOrder)
    (lands : order + 1 = allocMaxOrder → Aligned (allocMaxOrder, alignBlock blk order)) :
    cover bytes [(order + 1, placed (alignBlock blk order) (order + 1))] byte =
      cover bytes [(order, alignBlock blk order)] byte + cover bytes [(order, buddyAt blk order)] byte := by
  have aligned := align_block_aligned blk order (Nat.le_of_lt below)
  have wholeAligned : Aligned (order + 1, placed (alignBlock blk order) (order + 1)) := by
    unfold placed
    split
    · exact align_block_aligned _ _ (by omega)
    · have top : order + 1 = allocMaxOrder := by omega
      rw [top]
      exact lands top
  have sameRegion : dyadic (order + 1, placed (alignBlock blk order) (order + 1)) = dyadic (order + 1, alignBlock blk order) := by
    unfold placed
    split
    · exact align_block_dyadic _ _ (by omega)
    · rfl
  have whole := bytes_split (alignBlock blk order) order (Nat.le_of_lt below) aligned _ wholeAligned sameRegion
  have inWhole : byte ∈ bytes (order + 1, placed (alignBlock blk order) (order + 1)) ↔
      byte ∈ bytes (order, alignBlock blk order) ∨ byte ∈ bytes (order, buddyAt blk order) := by
    rw [whole, Set.mem_union, buddyAt]
  have apart : byte ∈ bytes (order, alignBlock blk order) → byte ∉ bytes (order, buddyAt blk order) :=
    fun inside => Set.disjoint_left.mp (bytes_buddy_disjoint _ order (Nat.le_of_lt below) aligned) inside
  simp only [cover_cons, cover_nil]
  by_cases inLower : byte ∈ bytes (order, alignBlock blk order)
  · simp [inWhole, inLower, apart inLower]
  · by_cases inUpper : byte ∈ bytes (order, buddyAt blk order)
    · simp [inWhole, inLower, inUpper]
    · simp [inWhole, inLower, inUpper]

theorem add_free_list_cover (climb order : Nat) (blk : Addr) (lists : FreeLists) (byte : Nat)
    (range : climb + order = allocMaxOrder) (lands : LandsAligned blk order lists) :
    freeCover (addFreeListAt climb order blk lists) byte =
      freeCover lists byte + cover bytes [(order, placed blk order)] byte := by
  induction climb generalizing order blk lists with
  | zero =>
      have top : placed blk order = blk := if_neg (by omega)
      rw [top]
      exact free_cover_link lists order blk byte (by omega)
  | succ climb ih =>
      have start : placed blk order = alignBlock blk order := if_pos (by omega)
      rw [start]
      rcases add_free_list_cases climb order blk lists with ⟨_, linked⟩ | ⟨found, moved⟩
      · rw [linked]
        exact free_cover_link lists order _ byte (by omega)
      · have unlinked := free_cover_unlink lists order (buddyAt blk order) byte (by omega) found
        have higher := ih (order + 1) (alignBlock blk order) _ (by omega)
          (lands_aligned_moves_up order blk lists ((lists order).erase (buddyAt blk order)) (by omega) found lands)
        have merged := cover_merge order blk byte (by omega) (lands_aligned_at_top order blk lists found lands)
        rw [moved, higher, merged]
        omega

theorem add_free_list_aligned (order : Nat) (blk : Addr) (lists : FreeLists) (climb : Nat)
    (range : climb + order = allocMaxOrder) (aligned : AllListed Aligned lists) (lands : LandsAligned blk order lists) :
    AllListed Aligned (addFreeListAt climb order blk lists) := by
  obtain ⟨top, low, high, passes, stops, result⟩ := add_free_list_lands climb order blk lists range
  intro other small start member
  rw [result other] at member
  split at member
  · exact aligned other small start (List.mem_of_mem_erase member)
  · split at member
    · rename_i sameTop
      subst sameTop
      rcases List.mem_cons.mp member with rfl | older
      · by_cases below : other < allocMaxOrder
        · rw [landing, if_pos below]
          exact align_block_aligned blk other small
        · obtain rfl : other = allocMaxOrder := by omega
          exact lands passes
      · exact aligned other small start older
    · exact aligned other small start member

end Kraftwerk.Pmem
