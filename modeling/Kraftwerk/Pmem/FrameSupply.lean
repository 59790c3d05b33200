import Kraftwerk.Pmem.BuddyRuns
import Mathlib.Algebra.BigOperators.Group.Finset.Basic
import Mathlib.Algebra.BigOperators.Group.Finset.Piecewise

set_option autoImplicit false

-- physical_memory::allocate(1) as a supply of page frames: what it answers, call after call, until the lists are empty.
namespace Kraftwerk.Pmem

open Cover

def frameCount (lists : FreeLists) : Nat := ∑ order ∈ Finset.range (allocMaxOrder + 1), (lists order).length * 2 ^ order

theorem frame_count_set (lists : FreeLists) (order : Nat) (starts : List Addr) (small : order ≤ allocMaxOrder) :
    frameCount (setList lists order starts) + (lists order).length * 2 ^ order =
      frameCount lists + starts.length * 2 ^ order := by
  have family : (fun index => (setList lists order starts index).length * 2 ^ index) =
      Function.update (fun index => (lists index).length * 2 ^ index) order (starts.length * 2 ^ order) := by
    funext index
    by_cases same : index = order
    · subst same
      simp
    · simp [same]
  have member : order ∈ Finset.range (allocMaxOrder + 1) := Finset.mem_range.mpr (Nat.lt_succ_of_le small)
  have before := Finset.sum_eq_add_sum_sdiff_singleton_of_mem member (fun index => (lists index).length * 2 ^ index)
  rw [frameCount, family, Finset.sum_update_of_mem member, frameCount, before]
  omega

theorem frame_count_pop (lists : FreeLists) (order : Nat) (start : Addr) (rest : List Addr) (small : order ≤ allocMaxOrder)
    (head : lists order = start :: rest) : frameCount (setList lists order rest) + 2 ^ order = frameCount lists := by
  have drop := frame_count_set lists order rest small
  rw [head, List.length_cons, Nat.succ_mul] at drop
  omega

theorem fill_free_list_count (climb order : Nat) (lists filled : FreeLists) (range : climb + order = allocMaxOrder)
    (done : fillFreeListAt climb order lists = some filled) : frameCount filled = frameCount lists := by
  induction climb generalizing order filled with
  | zero => rw [Option.some.inj done]
  | succ climb ih =>
      rcases fill_free_list_cases climb order lists filled done with
        ⟨_, rfl⟩ | ⟨empty, above, oldBlock, rest, aboveEq, headEq, rfl⟩
      · rfl
      · have before := ih (order + 1) above (by omega) aboveEq
        have stillEmpty : above order = [] := (fill_free_list_below climb (order + 1) lists above aboveEq order (by omega)).trans empty
        have pop := frame_count_pop above (order + 1) oldBlock rest (by omega) headEq
        have push := frame_count_set (setList above (order + 1) rest) order [oldBlock ^^^ intBit (order + 12), oldBlock] (by omega)
        rw [set_list_other above (order + 1) order rest (by omega), stillEmpty, List.length_nil, Nat.zero_mul] at push
        have halves : 2 ^ (order + 1) = 2 * 2 ^ order := Nat.pow_succ'
        simp only [List.length_cons, List.length_nil] at push
        omega

theorem allocate_count (nPages : Nat) (lists after : FreeLists) (start : Addr) (fits : nPages ≤ 2 ^ allocMaxOrder)
    (done : allocate nPages lists = some (start, after)) :
    frameCount after + 2 ^ getAllocOrder nPages = frameCount lists := by
  obtain ⟨filled, rest, filledEq, headEq, rfl⟩ := allocate_some nPages lists after start fits done
  have small := get_alloc_order_le nPages fits
  rw [← fill_free_list_count _ _ lists filled (by omega) filledEq]
  exact frame_count_pop filled _ start rest small headEq

theorem some_list_of_count (lists : FreeLists) (some : 0 < frameCount lists) : ∃ order ≤ allocMaxOrder, lists order ≠ [] := by
  by_contra none
  have zero : frameCount lists = 0 := Finset.sum_eq_zero fun order member => by
    have empty : lists order = [] := by
      by_contra present
      exact none ⟨order, Nat.le_of_lt_succ (Finset.mem_range.mp member), present⟩
    rw [empty, List.length_nil, Nat.zero_mul]
  omega

theorem single_frame_order : getAllocOrder 1 = 0 := by decide

theorem single_frame_fits : 1 ≤ 2 ^ allocMaxOrder := by decide

theorem allocate_frame (lists : FreeLists) (some : 0 < frameCount lists) : ∃ page after, allocate 1 lists = .some (page, after) := by
  obtain ⟨source, inside, present⟩ := some_list_of_count lists some
  exact allocate_returns 1 lists single_frame_fits ⟨source, by rw [single_frame_order]; exact Nat.zero_le source, inside, present⟩

-- The next frames that allocate(1) answers.
def Draws : FreeLists → List Addr → Prop
  | _, [] => True
  | lists, page :: rest => ∃ next, allocate 1 lists = some (page, next) ∧ Draws next rest

-- The frames that allocate(1) answers in order until no frame is left.
def Drains : FreeLists → List Addr → Prop
  | lists, [] => frameCount lists = 0
  | lists, page :: rest => ∃ next, allocate 1 lists = some (page, next) ∧ Drains next rest

theorem drains_exists (lists : FreeLists) : ∃ frames, Drains lists frames := by
  induction count : frameCount lists generalizing lists with
  | zero => exact ⟨[], count⟩
  | succ left ih =>
      obtain ⟨page, after, taken⟩ := allocate_frame lists (by omega)
      have less := allocate_count 1 lists after page single_frame_fits taken
      rw [single_frame_order, Nat.pow_zero] at less
      obtain ⟨frames, drains⟩ := ih after (by omega)
      exact ⟨page :: frames, after, taken, drains⟩

theorem drains_length (lists : FreeLists) (frames : List Addr) (drains : Drains lists frames) : frames.length = frameCount lists := by
  induction frames generalizing lists with
  | nil => exact drains.symm
  | cons page rest ih =>
      obtain ⟨next, taken, later⟩ := drains
      have less := allocate_count 1 lists next page single_frame_fits taken
      rw [single_frame_order, Nat.pow_zero, ← ih next later] at less
      exact less

theorem no_frame_uncovered (lists : FreeLists) (none : frameCount lists = 0) (byte : Nat) : freeCover lists byte = 0 := by
  refine (cover_eq_zero_iff bytes _ byte).mpr fun block member => ?_
  obtain ⟨small, found⟩ := (mem_listed lists block).mp member
  have term := (Finset.sum_eq_zero_iff.mp none) block.1 (Finset.mem_range.mpr (Nat.lt_succ_of_le small))
  rcases Nat.mul_eq_zero.mp term with empty | power
  · rw [List.length_eq_zero_iff.mp empty] at found
    cases found
  · exact absurd power (Nat.pos_iff_ne_zero.mp (Nat.two_pow_pos _))

-- The frames cover what the lists cover, each as a block of its own.
theorem drains_cover (lists : FreeLists) (frames : List Addr) (aligned : AllListed Aligned lists) (drains : Drains lists frames)
    (byte : Nat) : cover bytes (level 0 frames) byte = freeCover lists byte := by
  induction frames generalizing lists with
  | nil => exact (no_frame_uncovered lists drains byte).symm
  | cons page rest ih =>
      obtain ⟨next, taken, later⟩ := drains
      have moved := allocate_cover 1 lists next page byte single_frame_fits aligned taken
      have nextAligned := (allocate_all Aligned aligned_split_closed 1 lists next page single_frame_fits aligned taken).1
      rw [single_frame_order] at moved
      rw [level_cons_cover, ih next nextAligned later, ← moved, Nat.add_comm]

theorem drains_aligned (lists : FreeLists) (frames : List Addr) (aligned : AllListed Aligned lists) (drains : Drains lists frames) :
    ∀ page ∈ frames, Aligned (0, page) := by
  induction frames generalizing lists with
  | nil => exact fun _ member => absurd member List.not_mem_nil
  | cons page rest ih =>
      obtain ⟨next, taken, later⟩ := drains
      obtain ⟨nextAligned, pageAligned⟩ := allocate_all Aligned aligned_split_closed 1 lists next page single_frame_fits aligned taken
      rw [single_frame_order] at pageAligned
      exact List.forall_mem_cons.mpr ⟨pageAligned, ih next nextAligned later⟩

-- The page frame at an address is free.
def FreeFrame (lists : FreeLists) (page : Addr) : Prop := Aligned (0, page) ∧ 0 < freeCover lists page.toNat

theorem frame_bytes_unique (page other : Addr) (aligned : Aligned (0, page)) (otherAligned : Aligned (0, other))
    (inside : page.toNat ∈ bytes (0, other)) : page = other := by
  obtain ⟨index, pageEq⟩ := aligned
  obtain ⟨otherIndex, otherEq⟩ := otherAligned
  simp only [bytes, Set.mem_ofPred_eq] at inside pageEq otherEq
  exact BitVec.eq_of_toNat_eq (by omega)

section
variable (lists : FreeLists) (frames : List Addr) (aligned : AllListed Aligned lists) (drains : Drains lists frames)

include aligned drains

theorem mem_drains (page : Addr) : page ∈ frames ↔ FreeFrame lists page := by
  have all := drains_aligned lists frames aligned drains
  constructor
  · intro member
    refine ⟨all page member, ?_⟩
    rw [← drains_cover lists frames aligned drains]
    exact (cover_pos_iff bytes _ _).mpr ⟨(0, page), List.mem_map.mpr ⟨page, member, rfl⟩, bytes_start (0, page)⟩
  · rintro ⟨pageAligned, free⟩
    rw [← drains_cover lists frames aligned drains] at free
    obtain ⟨block, blockMember, inside⟩ := (cover_pos_iff bytes _ _).mp free
    obtain ⟨other, member, rfl⟩ := List.mem_map.mp blockMember
    rwa [frame_bytes_unique page other pageAligned (all other member) inside]

theorem drains_nodup (once : ∀ byte, freeCover lists byte ≤ 1) : frames.Nodup := by
  have apart : PairwiseDisjoint (level 0 frames) := (pairwise_disjoint_iff bytes _).mpr fun byte => by
    rw [drains_cover lists frames aligned drains]
    exact once byte
  refine (List.pairwise_map.mp apart).imp fun disjoint same => ?_
  subst same
  exact Set.disjoint_left.mp disjoint (bytes_start (0, _)) (bytes_start (0, _))

end

-- A free that Allowed and TopMergeAtLowerHalf let through gives exactly its block back.
theorem freed_cover (state : State) (start : Addr) (nPages : Nat) (fits : nPages ≤ 2 ^ allocMaxOrder)
    (aligned : AllListed Aligned state.lists) (startAligned : Aligned (getAllocOrder nPages, start))
    (guard : TopMergeAtLowerHalf state (.free start nPages)) :
    ∃ lists, free start nPages state.lists = some lists ∧ AllListed Aligned lists ∧
      ∀ byte, freeCover lists byte = freeCover state.lists byte + cover bytes [(getAllocOrder nPages, start)] byte := by
  have small := get_alloc_order_le nPages fits
  have lands := lands_aligned_of_lower_half state start nPages fits startAligned guard
  have back : placed start (getAllocOrder nPages) = start := by
    unfold placed
    split
    · exact align_block_of_aligned start _ small startAligned
    · rfl
  refine ⟨_, by rw [free, addFreeList, if_neg (Nat.not_lt.mpr small)], add_free_list_aligned _ _ _ _ (by omega) aligned lands,
    fun byte => ?_⟩
  rw [add_free_list_cover _ _ start state.lists byte (by omega) lands, back]

end Kraftwerk.Pmem
