import Kraftwerk.Pmem.Allocate

set_option autoImplicit false

namespace Kraftwerk.Pmem

structure BootMmap where
  beginning : Addr
  size : BitVec 64
deriving DecidableEq, Repr

-- n_frames is an unsigned int: the page count of a range is cut to 32 bits.
def nFrames (range : BootMmap) : Nat := ((range.size >>> 12).truncate 32).toNat

-- The loop over i2, which leaves the order at 0 when no test succeeds.
def initOrderFrom (frames : Nat) : Nat → Nat → Nat
  | 0, _ => 0
  | left + 1, i2 =>
      if 2 ^ i2 = frames then i2
      else if 2 ^ i2 < frames ∧ frames < 2 ^ (i2 + 1) then i2
      else initOrderFrom frames left (i2 + 1)

def initOrder (frames : Nat) : Nat := initOrderFrom frames (allocMaxOrder + 1) 0

def nBlocks (range : BootMmap) : Nat := nFrames range >>> initOrder (nFrames range)

-- j << (order + 12) is computed in 32 bits and then added to the 64-bit beginning.
def initBlock (range : BootMmap) (j : Nat) : Block :=
  let order := initOrder (nFrames range)
  (order, range.beginning + ((BitVec.ofNat 32 j) <<< (order + 12)).setWidth 64)

def initializeRange (lists : FreeLists) (range : BootMmap) : FreeLists :=
  (List.range (nBlocks range)).foldl
    (fun lists j => setList lists (initBlock range j).1 ((initBlock range j).2 :: lists (initBlock range j).1)) lists

def pmemInitialize (memMap : List BootMmap) : FreeLists := memMap.foldl initializeRange (fun _ => [])

-- The loop rounds the binary logarithm down, and gives the order 0 to 2^19 frames and more.
theorem init_order_from_log (frames left i2 : Nat) (low : 2 ^ i2 ≤ frames) :
    initOrderFrom frames left i2 = if frames < 2 ^ (i2 + left) then Nat.log 2 frames else 0 := by
  induction left generalizing i2 with
  | zero => rw [initOrderFrom, Nat.add_zero, if_neg (Nat.not_lt.mpr low)]
  | succ left ih =>
      have next : i2 + 1 + left = i2 + (left + 1) := by omega
      have above : 2 ^ (i2 + 1) ≤ 2 ^ (i2 + (left + 1)) := Nat.pow_le_pow_right (by decide) (by omega)
      have lower : 2 ^ i2 < 2 ^ (i2 + 1) := Nat.pow_lt_pow_right (by decide) (Nat.lt_succ_self i2)
      rw [initOrderFrom]
      by_cases exactly : 2 ^ i2 = frames
      · rw [if_pos exactly, if_pos (by omega), ← exactly, Nat.log_pow (by decide) i2]
      · rw [if_neg exactly]
        by_cases between : 2 ^ i2 < frames ∧ frames < 2 ^ (i2 + 1)
        · rw [if_pos between, if_pos (by omega)]
          exact (Nat.log_eq_of_pow_le_of_lt_pow (Nat.le_of_lt between.1) between.2).symm
        · rw [if_neg between, ih (i2 + 1) (by omega), next]

theorem init_order_eq (frames : Nat) (some : 1 ≤ frames) :
    initOrder frames = if frames < 2 ^ (allocMaxOrder + 1) then Nat.log 2 frames else 0 := by
  rw [initOrder, init_order_from_log frames (allocMaxOrder + 1) 0 some, Nat.zero_add]

theorem init_order_le (frames : Nat) : initOrder frames ≤ allocMaxOrder := by
  cases Nat.eq_zero_or_pos frames with
  | inl none =>
      subst none
      decide
  | inr some =>
      rw [init_order_eq frames some]
      split
      · rename_i few
        exact Nat.le_of_lt_succ (Nat.log_lt_of_lt_pow' (Nat.succ_ne_zero _) few)
      · exact Nat.zero_le _

theorem init_order_log (frames : Nat) (some : 1 ≤ frames) (few : frames < 2 ^ 19) :
    2 ^ initOrder frames ≤ frames ∧ frames < 2 ^ (initOrder frames + 1) := by
  have inside : frames < 2 ^ (allocMaxOrder + 1) := few
  rw [init_order_eq frames some, if_pos inside]
  exact ⟨Nat.pow_log_le_self 2 (Nat.ne_of_gt some), Nat.lt_pow_succ_log_self (by decide) frames⟩

theorem init_order_many (frames : Nat) (many : 2 ^ 19 ≤ frames) : initOrder frames = 0 := by
  rw [init_order_eq frames (Nat.le_trans (Nat.two_pow_pos 19) many)]
  exact if_neg (Nat.not_lt.mpr many)

theorem initialize_range_all (keep : Block → Prop) (lists : FreeLists) (range : BootMmap) (all : AllListed keep lists)
    (kept : ∀ j, j < nBlocks range → keep (initBlock range j)) : AllListed keep (initializeRange lists range) := by
  refine List.foldlRecOn (List.range (nBlocks range)) _ all (fun before inv j member => ?_)
  apply all_listed_set keep before _ _ inv
  intro start listedStart
  cases List.mem_cons.mp listedStart with
  | inl new => exact new ▸ kept j (List.mem_range.mp member)
  | inr old => exact inv _ (init_order_le _) start old

theorem pmem_initialize_all (keep : Block → Prop) (memMap : List BootMmap)
    (kept : ∀ range ∈ memMap, ∀ j, j < nBlocks range → keep (initBlock range j)) : AllListed keep (pmemInitialize memMap) := by
  refine List.foldlRecOn memMap _ ?_ (fun before inv range member => ?_)
  · intro order _ start member
    simp at member
  · exact initialize_range_all keep before range inv (kept range member)

end Kraftwerk.Pmem
