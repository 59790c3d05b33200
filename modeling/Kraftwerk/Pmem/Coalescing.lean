import Kraftwerk.Pmem.BuddyRuns

set_option autoImplicit false

namespace Kraftwerk.Pmem

open Cover Runs

def freeFrames (lists : FreeLists) : Set Nat := framesOf (listed lists)

-- The frames of an aligned block, as a block of frame numbers.
def frameBlock (block : Block) : Dyadic.Block := ⟨block.1, block.2.toNat / 2 ^ (block.1 + 12)⟩

def BuddyFree (order : Nat) (starts : List Addr) : Prop := ∀ start ∈ starts, start ^^^ intBit (order + 12) ∉ starts

structure Coalesced (lists : FreeLists) : Prop where
  wellFormed : WellFormed lists
  topEmpty : lists allocMaxOrder = []
  noBuddies : ∀ order, order ≤ allocMaxOrder → BuddyFree order (lists order)
  noTopRegion : ∀ index, ¬ Dyadic.points ⟨allocMaxOrder, index⟩ ⊆ freeFrames lists

-- The lists hold each maximal aligned block of the free frames once, and nothing else.
structure Canonical (lists : FreeLists) : Prop where
  aligned : AllListed Aligned lists
  distinct : (listed lists).Nodup
  maximal : ∀ block, block ∈ (listed lists).map frameBlock ↔ Dyadic.IsMaximal (freeFrames lists) block

def Successful (state : State) : Call → Prop
  | .allocate nPages => nPages ≤ 2 ^ allocMaxOrder ∧ (allocate nPages state.lists).isSome
  | .free start nPages => ⟨start, nPages⟩ ∈ state.outstanding

theorem frame_in_block (order index frame : Nat) :
    frame * 4096 ∈ Dyadic.points ⟨order + 12, index⟩ ↔ frame ∈ Dyadic.points ⟨order, index⟩ := by
  simp only [Dyadic.mem_points, Nat.pow_add]
  rw [show (4096 : Nat) = 2 ^ 12 by rfl, Nat.mul_div_mul_right _ _ (Nat.two_pow_pos 12)]

theorem mem_frame_block (block : Block) (frame : Nat) (aligned : Aligned block) :
    frame ∈ Dyadic.points (frameBlock block) ↔ frame * 4096 ∈ bytes block := by
  rw [bytes_eq_points block aligned]
  exact (frame_in_block block.1 _ frame).symm

theorem buddy_free_subset (order : Nat) (small large : List Addr) (subset : small ⊆ large) (free : BuddyFree order large) :
    BuddyFree order small :=
  fun start member buddy => free start (subset member) (subset buddy)

theorem buddy_free_singleton (order : Nat) (start : Addr) (small : order ≤ allocMaxOrder) : BuddyFree order [start] := by
  intro other member buddy
  obtain rfl : other = start := by simpa using member
  have same := congrArg (fun address => dyadic (order, address)) (List.mem_singleton.mp buddy)
  simp only [buddy_dyadic other order small] at same
  exact Dyadic.sibling_ne _ same

-- fill_free_list leaves buddies together only at the head of the list it fills,
-- where the caller takes the first of them.
theorem fill_free_list_buddies (climb order : Nat) (lists filled : FreeLists) (range : climb + order = allocMaxOrder)
    (free : ∀ other, other ≤ allocMaxOrder → BuddyFree other (lists other))
    (done : fillFreeListAt climb order lists = some filled) :
    (∀ other, other ≤ allocMaxOrder → other ≠ order → BuddyFree other (filled other)) ∧
      BuddyFree order (filled order).tail := by
  induction climb generalizing order filled with
  | zero =>
      obtain rfl := Option.some.inj done
      exact ⟨fun other small _ => free other small, buddy_free_subset _ _ _ (List.tail_sublist _).subset (free order (by omega))⟩
  | succ climb ih =>
      rcases fill_free_list_cases climb order lists filled done with
        ⟨_, rfl⟩ | ⟨_, above, oldBlock, rest, aboveEq, headEq, rfl⟩
      · exact ⟨fun other small _ => free other small, buddy_free_subset _ _ _ (List.tail_sublist _).subset (free order (by omega))⟩
      · obtain ⟨others, restFree⟩ := ih (order + 1) above (by omega) aboveEq
        rw [headEq, List.tail_cons] at restFree
        refine ⟨fun other small different => ?_, ?_⟩
        · rw [set_list_other _ _ _ _ different]
          by_cases above : other = order + 1
          · subst above
            rwa [set_list_same]
          · rw [set_list_other _ _ _ _ above]
            exact others other small above
        · rw [set_list_same, List.tail_cons]
          exact buddy_free_singleton order oldBlock (by omega)

theorem fill_free_list_supply (climb order : Nat) (lists filled : FreeLists) (range : climb + order = allocMaxOrder)
    (done : fillFreeListAt climb order lists = some filled) (present : filled order ≠ []) :
    ∃ source, order ≤ source ∧ source ≤ allocMaxOrder ∧ lists source ≠ [] := by
  induction climb generalizing order filled with
  | zero => exact ⟨order, Nat.le_refl _, by omega, Option.some.inj done ▸ present⟩
  | succ climb ih =>
      rcases fill_free_list_cases climb order lists filled done with
        ⟨listPresent, _⟩ | ⟨_, above, oldBlock, rest, aboveEq, headEq, _⟩
      · exact ⟨order, Nat.le_refl _, by omega, listPresent⟩
      · obtain ⟨source, low, high, sourcePresent⟩ := ih (order + 1) above (by omega) aboveEq (by simp [headEq])
        exact ⟨source, by omega, high, sourcePresent⟩

theorem allowed_of_successful (state : State) (call : Call) (successful : Successful state call) : Allowed state call := by
  cases call with
  | allocate nPages =>
      obtain ⟨fits, returns⟩ := successful
      obtain ⟨⟨start, after⟩, done⟩ := Option.isSome_iff_exists.mp returns
      obtain ⟨filled, rest, filledEq, headEq, _⟩ := allocate_some nPages state.lists after start fits done
      have small := get_alloc_order_le nPages fits
      exact ⟨fits, fill_free_list_supply _ _ state.lists filled (by omega) filledEq (by simp [headEq])⟩
  | free start nPages => exact successful

-- A free that passes every order up to some order has found all of the block of
-- that order around it among the freed block and the free blocks.
theorem passed_region (start : Addr) (order high : Nat) (lists : FreeLists) (low : order ≤ high) (small : high ≤ allocMaxOrder)
    (startAligned : Aligned (order, start))
    (passes : ∀ passed, order ≤ passed → passed < high → buddyAt start passed ∈ lists passed) (byte : Nat)
    (inside : byte ∈ Dyadic.points (dyadic (high, start))) :
    byte ∈ bytes (order, start) ∨ ∃ block ∈ listed lists, byte ∈ bytes block := by
  induction high, low using Nat.le_induction with
  | base => exact .inl (bytes_eq_points _ startAligned ▸ inside)
  | succ high low ih =>
      rw [← dyadic_parent, Dyadic.points_parent] at inside
      rcases inside with lower | upper
      · exact ih (by omega) (fun passed passedLow passedHigh => passes passed passedLow (by omega)) lower
      · have found := passes high low (by omega)
        have aligned := align_block_aligned start high (by omega)
        refine .inr ⟨(high, buddyAt start high), (mem_listed lists _).mpr ⟨by omega, found⟩, ?_⟩
        rw [buddyAt, bytes_eq_points _ (buddy_aligned _ high (by omega) aligned), buddy_dyadic _ high (by omega),
          align_block_dyadic start high (by omega)]
        exact upper

structure Coalescing (initial : FreeLists) (state : State) : Prop where
  conserving : Conserving initial state
  noBuddies : ∀ order, order ≤ allocMaxOrder → BuddyFree order (state.lists order)

theorem never_merges_to_top (initial : FreeLists) (coalesced : Coalesced initial) (state : State) (inv : Conserving initial state)
    (start : Addr) (nPages : Nat) (allowed : Allowed state (.free start nPages)) :
    ¬ ∀ order, getAllocOrder nPages ≤ order → order < allocMaxOrder → buddyAt start order ∈ state.lists order := by
  intro passes
  obtain ⟨fits, aligned⟩ := inv.taken ⟨start, nPages⟩ allowed
  have small := get_alloc_order_le nPages fits
  have conserved := (conserving_safe initial state inv).conserved
  apply coalesced.noTopRegion (start.toNat / 2 ^ (allocMaxOrder + 12))
  intro frame inside
  have region := passed_region start (getAllocOrder nPages) allocMaxOrder state.lists small (Nat.le_refl _) aligned passes
    (frame * 4096) ((frame_in_block allocMaxOrder _ frame).mpr inside)
  rw [freeFrames, ← conserved]
  rcases region with taken | ⟨block, member, covered⟩
  · exact .inr ⟨allocationBlock ⟨start, nPages⟩, List.mem_map_of_mem allowed, taken⟩
  · exact .inl ⟨block, member, covered⟩

theorem add_free_list_buddies (climb order : Nat) (blk : Addr) (lists : FreeLists) (range : climb + order = allocMaxOrder)
    (free : ∀ other, other ≤ allocMaxOrder → BuddyFree other (lists other))
    (stops : ¬ ∀ passed, order ≤ passed → passed < allocMaxOrder → buddyAt blk passed ∈ lists passed)
    (other : Nat) (small : other ≤ allocMaxOrder) : BuddyFree other (addFreeListAt climb order blk lists other) := by
  obtain ⟨top, low, high, passes, absent, result⟩ := add_free_list_lands climb order blk lists range
  have belowTop : top < allocMaxOrder := by
    by_contra atTop
    exact stops (fun passed passedLow passedHigh => passes passed passedLow (by omega))
  rw [result other]
  split
  · exact buddy_free_subset _ _ _ List.erase_subset (free other small)
  · split
    · rename_i same
      subst same
      have noBuddy : alignBlock blk other ^^^ intBit (other + 12) ∉ lists other := absent belowTop
      rw [landing, if_pos belowTop]
      intro start member buddy
      rcases List.mem_cons.mp member with rfl | older
      · rcases List.mem_cons.mp buddy with self | listedBuddy
        · exact buddy_free_singleton other _ small _ (List.mem_singleton_self _) (List.mem_singleton.mpr self)
        · exact noBuddy listedBuddy
      · rcases List.mem_cons.mp buddy with self | listedBuddy
        · rw [← self, buddy_buddy] at noBuddy
          exact noBuddy older
        · exact free other small start older listedBuddy
    · exact free other small

theorem coalescing_step (initial : FreeLists) (coalesced : Coalesced initial) (state : State) (call : Call)
    (inv : Coalescing initial state) (successful : Successful state call) :
    ∃ next, step state call = some next ∧ Coalescing initial next := by
  have allowed := allowed_of_successful state call successful
  cases call with
  | allocate nPages =>
      obtain ⟨next, stepped, conserving⟩ := conserving_allocate initial state nPages inv.conserving allowed
      refine ⟨next, stepped, conserving, fun order small => ?_⟩
      obtain ⟨⟨start, after⟩, done⟩ := Option.isSome_iff_exists.mp successful.2
      obtain rfl : after = next.lists := by
        simp only [step, done, Option.map_some, Option.some.injEq] at stepped
        rw [← stepped]
      obtain ⟨filled, rest, filledEq, headEq, afterEq⟩ := allocate_some nPages state.lists _ start successful.1 done
      have fits := get_alloc_order_le nPages successful.1
      obtain ⟨others, restFree⟩ := fill_free_list_buddies _ _ state.lists filled (by omega) inv.noBuddies filledEq
      rw [headEq, List.tail_cons] at restFree
      rw [afterEq]
      by_cases same : order = getAllocOrder nPages
      · subst same
        rwa [set_list_same]
      · rw [set_list_other _ _ _ _ same]
        exact others order small same
  | free start nPages =>
      have stops := never_merges_to_top initial coalesced state inv.conserving start nPages allowed
      obtain ⟨next, stepped, conserving⟩ := conserving_free initial state start nPages inv.conserving allowed
        (fun _ passes => absurd passes stops)
      refine ⟨next, stepped, conserving, fun order small => ?_⟩
      have fits := get_alloc_order_le nPages (inv.conserving.taken ⟨start, nPages⟩ allowed).1
      simp only [step, free, addFreeList, if_neg (Nat.not_lt.mpr fits), Option.map_some, Option.some.injEq] at stepped
      subst stepped
      exact add_free_list_buddies _ _ start state.lists (by omega) inv.noBuddies stops order small

theorem frame_block_injective (a b : Block) (alignedA : Aligned a) (alignedB : Aligned b)
    (same : frameBlock a = frameBlock b) : a = b := by
  obtain ⟨orderA, startA⟩ := a
  obtain ⟨orderB, startB⟩ := b
  obtain ⟨rfl, indices⟩ := Dyadic.Block.mk.injEq .. ▸ same
  simp only at indices
  rw [eq_of_dyadic_eq orderA startA startB alignedA alignedB (by simp only [dyadic, indices])]

def frameBlocks (lists : FreeLists) : Set Dyadic.Block := {block | block ∈ (listed lists).map frameBlock}

theorem frame_blocks_union (lists : FreeLists) (wellFormed : WellFormed lists) :
    Dyadic.union (frameBlocks lists) = freeFrames lists := by
  ext frame
  rw [Dyadic.mem_union]
  simp only [frameBlocks, Set.mem_ofPred_eq, List.mem_map, freeFrames, framesOf]
  constructor
  · rintro ⟨_, ⟨block, member, rfl⟩, inside⟩
    exact ⟨block, member, (mem_frame_block block frame (listed_aligned lists wellFormed block member)).mp inside⟩
  · rintro ⟨block, member, covered⟩
    exact ⟨frameBlock block, ⟨block, member, rfl⟩,
      (mem_frame_block block frame (listed_aligned lists wellFormed block member)).mpr covered⟩

theorem frame_blocks_coalesced (lists : FreeLists) (wellFormed : WellFormed lists)
    (free : ∀ order, order ≤ allocMaxOrder → BuddyFree order (lists order)) : Dyadic.Coalesced (frameBlocks lists) where
  disjoint := by
    intro a memberA b memberB different
    obtain ⟨blockA, listedA, rfl⟩ := List.mem_map.mp memberA
    obtain ⟨blockB, listedB, rfl⟩ := List.mem_map.mp memberB
    have apart := listed_disjoint lists wellFormed blockA blockB listedA listedB (fun same => different (congrArg frameBlock same))
    refine Set.disjoint_left.mpr (fun frame inA inB => ?_)
    exact Set.disjoint_left.mp apart ((mem_frame_block blockA frame (listed_aligned lists wellFormed blockA listedA)).mp inA)
      ((mem_frame_block blockB frame (listed_aligned lists wellFormed blockB listedB)).mp inB)
  noSiblings := by
    intro block member siblingMember
    obtain ⟨⟨order, start⟩, listedBlock, rfl⟩ := List.mem_map.mp member
    obtain ⟨⟨siblingOrder, other⟩, listedOther, same⟩ := List.mem_map.mp siblingMember
    obtain rfl : siblingOrder = order := congrArg Dyadic.Block.order same
    obtain ⟨small, found⟩ := (mem_listed lists _).mp listedBlock
    obtain ⟨_, otherFound⟩ := (mem_listed lists _).mp listedOther
    have aligned := listed_aligned lists wellFormed _ listedBlock
    have otherAligned := listed_aligned lists wellFormed _ listedOther
    have isBuddy : other = start ^^^ intBit (siblingOrder + 12) := by
      apply eq_of_dyadic_eq siblingOrder _ _ otherAligned (buddy_aligned start siblingOrder small aligned)
      rw [buddy_dyadic start siblingOrder small]
      simp only [dyadic, Dyadic.sibling, Dyadic.Block.mk.injEq, true_and]
      exact congrArg Dyadic.Block.index same
    exact free siblingOrder small start found (isBuddy ▸ otherFound)

theorem canonical_of_coalescing (initial : FreeLists) (state : State) (inv : Coalescing initial state) :
    Canonical state.lists := by
  have wellFormed := (conserving_safe initial state inv.conserving).wellFormed
  refine ⟨wellFormed.aligned, ?_, fun block => ?_⟩
  · refine wellFormed.disjoint.imp (fun {a b} apart same => ?_)
    exact Set.disjoint_left.mp apart (bytes_start a) (same ▸ bytes_start a)
  · rw [← frame_blocks_union state.lists wellFormed]
    exact Dyadic.coalesced_iff_maximal (frameBlocks state.lists)
      (frame_blocks_coalesced state.lists wellFormed inv.noBuddies) block

-- The free frames determine a canonical state up to the order within each list.
theorem canonical_perm (left right : FreeLists) (canonicalLeft : Canonical left) (canonicalRight : Canonical right)
    (same : freeFrames left = freeFrames right) : (listed left).Perm (listed right) := by
  have subset : ∀ a b : FreeLists, Canonical a → Canonical b → freeFrames a = freeFrames b →
      ∀ block, block ∈ listed a → block ∈ listed b := by
    intro a b canonicalA canonicalB frames block member
    have maximal := (canonicalA.maximal (frameBlock block)).mp (List.mem_map_of_mem member)
    rw [frames] at maximal
    obtain ⟨other, otherMember, otherEq⟩ := List.mem_map.mp ((canonicalB.maximal _).mpr maximal)
    obtain ⟨smallA, foundA⟩ := (mem_listed a block).mp member
    obtain ⟨smallB, foundB⟩ := (mem_listed b other).mp otherMember
    exact frame_block_injective other block (canonicalB.aligned _ smallB _ foundB) (canonicalA.aligned _ smallA _ foundA)
      otherEq ▸ otherMember
  refine (List.perm_ext_iff_of_nodup canonicalLeft.distinct canonicalRight.distinct).mpr (fun block => ?_)
  exact ⟨subset left right canonicalLeft canonicalRight same block,
    subset right left canonicalRight canonicalLeft same.symm block⟩

-- What is free is what was free at first, less what is outstanding.
theorem free_frames_conserved (initial : FreeLists) (state : State) (inv : Conserving initial state) :
    freeFrames state.lists = freeFrames initial \ framesOf (handedOut state) := by
  have safe := conserving_safe initial state inv
  rw [freeFrames, freeFrames, ← safe.conserved]
  refine (Set.union_sdiff_cancel_right ?_).symm
  rintro frame ⟨⟨block, listedBlock, free⟩, taken, member, held⟩
  exact Set.disjoint_left.mp (safe.apart taken member block listedBlock) held free

theorem frames_of_perm (left right : List Block) (perm : left.Perm right) : framesOf left = framesOf right := by
  ext frame
  simp only [framesOf, Set.mem_ofPred_eq, perm.mem_iff]

-- A state of a run: canonical, with the frames that are not handed out.
structure Remainder (initial : FreeLists) (state : State) : Prop where
  canonical : Canonical state.lists
  conserved : freeFrames state.lists = freeFrames initial \ framesOf (handedOut state)

theorem coalescing_visits (initial : FreeLists) (coalesced : Coalesced initial) (calls : List Call)
    (successful : Along step Successful ⟨initial, []⟩ calls) : Visits step (Remainder initial) ⟨initial, []⟩ calls := by
  have kept := visits_of_along step Successful (Coalescing initial) (coalescing_step initial coalesced) ⟨initial, []⟩ calls
    ⟨conserving_initial initial coalesced.wellFormed, coalesced.noBuddies⟩ successful
  exact visits_mono step _ _ _ calls (fun state inv =>
    ⟨canonical_of_coalescing initial state inv, free_frames_conserved initial state inv.conserving⟩) kept

theorem coalescing_last (initial : FreeLists) (coalesced : Coalesced initial) (calls : List Call) (last : State)
    (successful : Along step Successful ⟨initial, []⟩ calls) (finished : run step ⟨initial, []⟩ calls = some last) :
    Remainder initial last := by
  obtain ⟨reached, same, remainder⟩ := visits_run step _ _ _ (coalescing_visits initial coalesced calls successful)
  exact Option.some.inj (same.symm.trans finished) ▸ remainder

-- Two runs that leave the same frames free leave the same lists, and so do two runs from one
-- state that leave the same blocks outstanding.
theorem canonical_coalescing (initial other : FreeLists) (coalesced : Coalesced initial) (otherCoalesced : Coalesced other) :
    (∀ calls, Along step Successful ⟨initial, []⟩ calls → Visits step (Remainder initial) ⟨initial, []⟩ calls) ∧
    (∀ calls otherCalls last otherLast, Along step Successful ⟨initial, []⟩ calls →
      Along step Successful ⟨other, []⟩ otherCalls → run step ⟨initial, []⟩ calls = some last →
      run step ⟨other, []⟩ otherCalls = some otherLast → freeFrames last.lists = freeFrames otherLast.lists →
      (listed last.lists).Perm (listed otherLast.lists)) ∧
    ∀ calls otherCalls last otherLast, Along step Successful ⟨initial, []⟩ calls →
      Along step Successful ⟨initial, []⟩ otherCalls → run step ⟨initial, []⟩ calls = some last →
      run step ⟨initial, []⟩ otherCalls = some otherLast → last.outstanding.Perm otherLast.outstanding →
      (listed last.lists).Perm (listed otherLast.lists) := by
  refine ⟨coalescing_visits initial coalesced, ?_, ?_⟩
  · intro calls otherCalls last otherLast successful otherSuccessful finished otherFinished same
    have remainder := coalescing_last initial coalesced calls last successful finished
    have otherRemainder := coalescing_last other otherCoalesced otherCalls otherLast otherSuccessful otherFinished
    exact canonical_perm _ _ remainder.canonical otherRemainder.canonical same
  · intro calls otherCalls last otherLast successful otherSuccessful finished otherFinished perm
    have remainder := coalescing_last initial coalesced calls last successful finished
    have otherRemainder := coalescing_last initial coalesced otherCalls otherLast otherSuccessful otherFinished
    refine canonical_perm _ _ remainder.canonical otherRemainder.canonical ?_
    rw [remainder.conserved, otherRemainder.conserved, frames_of_perm (handedOut last) (handedOut otherLast) (perm.map allocationBlock)]

-- One free block of each order below the top: a gigabyte whose first page is taken.
def stairs : FreeLists := fun order => if order < allocMaxOrder then [intBit (order + 12)] else []

theorem mem_stairs (order : Nat) (start : Addr) (member : start ∈ stairs order) :
    order < allocMaxOrder ∧ start = intBit (order + 12) ∧ start.toNat = 2 ^ (order + 12) := by
  unfold stairs at member
  split at member
  · rename_i below
    obtain rfl := List.mem_singleton.mp member
    exact ⟨below, rfl, int_bit_to_nat _ (by unfold allocMaxOrder at below; omega)⟩
  · simp at member

theorem stairs_listed : listed stairs = (List.range 18).map (fun order => (order, intBit (order + 12))) := by decide

theorem stairs_disjoint : PairwiseDisjoint (listed stairs) := by
  rw [PairwiseDisjoint, stairs_listed, List.pairwise_map]
  refine List.pairwise_lt_range.imp_of_mem (fun {small large} memberSmall memberLarge smaller => ?_)
  have bound := List.mem_range.mp memberLarge
  refine Set.disjoint_left.mpr (fun byte inSmall inLarge => ?_)
  simp only [bytes, Set.mem_ofPred_eq, int_bit_to_nat (small + 12) (by omega), int_bit_to_nat (large + 12) (by omega)]
    at inSmall inLarge
  have step : 2 ^ (small + 12 + 1) ≤ 2 ^ (large + 12) := Nat.pow_le_pow_right (by decide) (by omega)
  omega

theorem stairs_coalesced : Coalesced stairs where
  wellFormed := by
    refine ⟨fun order _ start member => ?_, stairs_disjoint⟩
    rw [Aligned, (mem_stairs order start member).2.2]
  topEmpty := rfl
  noBuddies := by
    intro order small
    unfold stairs
    split
    · exact buddy_free_singleton order _ small
    · simp [BuddyFree]
  noTopRegion := by
    intro index covered
    have first : index * 2 ^ allocMaxOrder ∈ Dyadic.points ⟨allocMaxOrder, index⟩ := by
      simp [Dyadic.mem_points]
    obtain ⟨⟨order, start⟩, member, low, high⟩ := covered first
    obtain ⟨below, -, startEq⟩ := mem_stairs order start ((mem_listed stairs _).mp member).2
    have half : 2 ^ (order + 1) ≤ 2 ^ allocMaxOrder := Nat.pow_le_pow_right (by decide) below
    simp only [startEq, Nat.pow_add, Nat.pow_one] at low high half
    have positive := Nat.two_pow_pos order
    obtain zero | large := Nat.eq_zero_or_pos index
    · subst zero
      omega
    · have := Nat.le_mul_of_pos_left (2 ^ allocMaxOrder) large
      omega

theorem stairs_canonical_coalescing :
    (∀ calls, Along step Successful ⟨stairs, []⟩ calls → Visits step (Remainder stairs) ⟨stairs, []⟩ calls) ∧
    (∀ calls otherCalls last otherLast, Along step Successful ⟨stairs, []⟩ calls →
      Along step Successful ⟨stairs, []⟩ otherCalls → run step ⟨stairs, []⟩ calls = some last →
      run step ⟨stairs, []⟩ otherCalls = some otherLast → freeFrames last.lists = freeFrames otherLast.lists →
      (listed last.lists).Perm (listed otherLast.lists)) ∧
    ∀ calls otherCalls last otherLast, Along step Successful ⟨stairs, []⟩ calls →
      Along step Successful ⟨stairs, []⟩ otherCalls → run step ⟨stairs, []⟩ calls = some last →
      run step ⟨stairs, []⟩ otherCalls = some otherLast → last.outstanding.Perm otherLast.outstanding →
      (listed last.lists).Perm (listed otherLast.lists) :=
  canonical_coalescing stairs stairs stairs_coalesced stairs_coalesced

end Kraftwerk.Pmem
