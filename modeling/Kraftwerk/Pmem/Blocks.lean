import Kraftwerk.Lib.Cover
import Kraftwerk.Lib.Dyadic
import Kraftwerk.Pmem.FreeLists
import Mathlib.Tactic.IntervalCases
import Mathlib.Tactic.Ring

set_option autoImplicit false

namespace Kraftwerk.Pmem

open Cover

-- A block on a list or handed out: its order and the address it starts at.
abbrev Block := Nat × Addr

def bytes (block : Block) : Set Nat :=
  {byte | block.2.toNat ≤ byte ∧ byte < block.2.toNat + 2 ^ (block.1 + 12)}

def Aligned (block : Block) : Prop := 2 ^ (block.1 + 12) ∣ block.2.toNat

def dyadic (block : Block) : Dyadic.Block := ⟨block.1 + 12, block.2.toNat / 2 ^ (block.1 + 12)⟩

theorem bytes_eq_points (block : Block) (aligned : Aligned block) : bytes block = Dyadic.points (dyadic block) := by
  obtain ⟨order, start⟩ := block
  obtain ⟨index, startEq⟩ := aligned
  have positive := Nat.two_pow_pos (order + 12)
  simp only at startEq
  ext byte
  simp only [bytes, Dyadic.mem_points, dyadic, Set.mem_ofPred_eq, startEq, Nat.mul_div_cancel_left index positive]
  rw [Nat.div_eq_iff positive, Nat.mul_comm index]
  omega

theorem bytes_start (block : Block) : block.2.toNat ∈ bytes block := by
  have positive := Nat.two_pow_pos (block.1 + 12)
  simp only [bytes, Set.mem_ofPred_eq]
  omega

theorem int_bit_to_nat (amount : Nat) (small : amount < 31) : (intBit amount).toNat = 2 ^ amount := by
  unfold intBit
  interval_cases amount <;> rfl

theorem align_mask (order : Nat) (small : order ≤ allocMaxOrder) :
    (~~~(((1#32) <<< (order + 12)) - 1#32)).signExtend 64 = BitVec.allOnes 64 <<< (order + 12) := by
  unfold allocMaxOrder at small
  interval_cases order <;> rfl

theorem align_block_to_nat (start : Addr) (order : Nat) (small : order ≤ allocMaxOrder) :
    (alignBlock start order).toNat = start.toNat / 2 ^ (order + 12) * 2 ^ (order + 12) := by
  have shifted : alignBlock start order = (start >>> (order + 12)) <<< (order + 12) := by
    rw [alignBlock, align_mask order small]
    apply BitVec.eq_of_getLsbD_eq
    intro i bound
    simp only [BitVec.getLsbD_and, BitVec.getLsbD_shiftLeft, BitVec.getLsbD_allOnes, BitVec.getLsbD_ushiftRight]
    by_cases low : i < order + 12
    · simp [low]
    · have rejoined : order + 12 + (i - (order + 12)) = i := by omega
      simp [low, rejoined, bound, show i - (order + 12) < 64 by omega]
  have inRange : start.toNat / 2 ^ (order + 12) * 2 ^ (order + 12) < 2 ^ 64 :=
    Nat.lt_of_le_of_lt (Nat.div_mul_le_self _ _) start.isLt
  rw [shifted, BitVec.toNat_shiftLeft, BitVec.toNat_ushiftRight, Nat.shiftRight_eq_div_pow, Nat.shiftLeft_eq,
    Nat.mod_eq_of_lt inRange]

theorem align_block_aligned (start : Addr) (order : Nat) (small : order ≤ allocMaxOrder) :
    Aligned (order, alignBlock start order) := by
  rw [Aligned, align_block_to_nat start order small]
  exact Nat.dvd_mul_left _ _

theorem align_block_of_aligned (start : Addr) (order : Nat) (small : order ≤ allocMaxOrder)
    (aligned : Aligned (order, start)) : alignBlock start order = start := by
  apply BitVec.eq_of_toNat_eq
  rw [align_block_to_nat start order small]
  exact Nat.div_mul_cancel aligned

theorem align_block_le (start : Addr) (order : Nat) (small : order ≤ allocMaxOrder) :
    (alignBlock start order).toNat ≤ start.toNat := by
  rw [align_block_to_nat start order small]
  exact Nat.div_mul_le_self _ _

theorem align_block_dyadic (start : Addr) (order : Nat) (small : order ≤ allocMaxOrder) :
    dyadic (order, alignBlock start order) = dyadic (order, start) := by
  simp only [dyadic, align_block_to_nat start order small, Nat.mul_div_cancel _ (Nat.two_pow_pos (order + 12))]

theorem dyadic_parent (start : Addr) (order : Nat) : Dyadic.parent (dyadic (order, start)) = dyadic (order + 1, start) := by
  simp only [Dyadic.parent, dyadic, Nat.div_div_eq_div_mul, ← Nat.pow_succ, Nat.add_right_comm]

theorem eq_of_dyadic_eq (order : Nat) (a b : Addr) (alignedA : Aligned (order, a)) (alignedB : Aligned (order, b))
    (same : dyadic (order, a) = dyadic (order, b)) : a = b := by
  apply BitVec.eq_of_toNat_eq
  have indices : a.toNat / 2 ^ (order + 12) = b.toNat / 2 ^ (order + 12) := congrArg Dyadic.Block.index same
  rw [← Nat.div_mul_cancel alignedA, ← Nat.div_mul_cancel alignedB]
  simp only [indices]

-- Flipping bit order + 12 leads to the sibling block.
theorem buddy_dyadic (start : Addr) (order : Nat) (small : order ≤ allocMaxOrder) :
    dyadic (order, start ^^^ intBit (order + 12)) = Dyadic.sibling (dyadic (order, start)) := by
  have bit := int_bit_to_nat (order + 12) (by unfold allocMaxOrder at small; omega)
  simp only [dyadic, Dyadic.sibling, BitVec.toNat_xor, bit, Nat.xor_div_two_pow,
    Nat.div_self (Nat.two_pow_pos (order + 12))]

theorem buddy_aligned (start : Addr) (order : Nat) (small : order ≤ allocMaxOrder) (aligned : Aligned (order, start)) :
    Aligned (order, start ^^^ intBit (order + 12)) := by
  have bit := int_bit_to_nat (order + 12) (by unfold allocMaxOrder at small; omega)
  simp only [Aligned] at aligned ⊢
  rw [Nat.dvd_iff_mod_eq_zero, BitVec.toNat_xor, bit, Nat.xor_mod_two_pow, Nat.mod_self,
    Nat.mod_eq_zero_of_dvd aligned]
  rfl

theorem buddy_buddy (start : Addr) (amount : Nat) : start ^^^ intBit amount ^^^ intBit amount = start := by
  rw [BitVec.xor_assoc, BitVec.xor_self, BitVec.xor_zero]

theorem aligned_below (order : Nat) (start : Addr) (aligned : Aligned (order + 1, start)) : Aligned (order, start) :=
  Nat.dvd_trans (Nat.pow_dvd_pow 2 (by omega)) aligned

theorem bytes_split (start : Addr) (order : Nat) (small : order ≤ allocMaxOrder) (aligned : Aligned (order, start))
    (whole : Addr) (wholeAligned : Aligned (order + 1, whole)) (inside : dyadic (order + 1, whole) = dyadic (order + 1, start)) :
    bytes (order + 1, whole) = bytes (order, start) ∪ bytes (order, start ^^^ intBit (order + 12)) := by
  rw [bytes_eq_points _ wholeAligned, inside, bytes_eq_points _ aligned,
    bytes_eq_points _ (buddy_aligned start order small aligned), buddy_dyadic start order small, ← dyadic_parent,
    Dyadic.points_parent]

theorem bytes_buddy_disjoint (start : Addr) (order : Nat) (small : order ≤ allocMaxOrder) (aligned : Aligned (order, start)) :
    Disjoint (bytes (order, start)) (bytes (order, start ^^^ intBit (order + 12))) := by
  rw [bytes_eq_points _ aligned, bytes_eq_points _ (buddy_aligned start order small aligned),
    buddy_dyadic start order small]
  exact Dyadic.points_sibling_disjoint _

theorem next_order_size (order : Nat) : 2 ^ (order + 1 + 12) = 2 ^ (order + 12) + 2 ^ (order + 12) := by
  rw [show order + 1 + 12 = (order + 12) + 1 by omega, Nat.pow_succ]
  omega

theorem buddy_halves (start : Addr) (order : Nat) (small : order < allocMaxOrder) (aligned : Aligned (order, start)) :
    (start.toNat = (alignBlock start (order + 1)).toNat ∧
      (start ^^^ intBit (order + 12)).toNat = (alignBlock start (order + 1)).toNat + 2 ^ (order + 12)) ∨
    (start.toNat = (alignBlock start (order + 1)).toNat + 2 ^ (order + 12) ∧
      (start ^^^ intBit (order + 12)).toNat = (alignBlock start (order + 1)).toNat) := by
  have positive := Nat.two_pow_pos (order + 12)
  obtain ⟨index, startEq⟩ := aligned
  obtain ⟨other, otherEq⟩ := buddy_aligned start order (Nat.le_of_lt small) ⟨index, startEq⟩
  have sibling := congrArg Dyadic.Block.index (buddy_dyadic start order (Nat.le_of_lt small))
  simp only [dyadic, Dyadic.sibling] at sibling otherEq startEq
  rw [otherEq, startEq, Nat.mul_div_cancel_left _ positive, Nat.mul_div_cancel_left _ positive] at sibling
  rw [align_block_to_nat start (order + 1) small, startEq, otherEq, sibling,
    show 2 ^ (order + 1 + 12) = 2 ^ (order + 12) * 2 by rw [next_order_size, Nat.mul_two], ← Nat.div_div_eq_div_mul,
    Nat.mul_div_cancel_left _ positive]
  cases Nat.mod_two_eq_zero_or_one index with
  | inl even =>
      rw [Dyadic.sibling_index_even index even]
      obtain ⟨half, rfl⟩ := Nat.dvd_of_mod_eq_zero even
      rw [Nat.mul_div_cancel_left half (by decide)]
      exact .inl ⟨by ring, by ring⟩
  | inr odd =>
      rw [Dyadic.sibling_index_odd index odd]
      obtain ⟨half, rfl⟩ : ∃ half, index = 2 * half + 1 := ⟨index / 2, by omega⟩
      rw [show (2 * half + 1) / 2 = half by omega, Nat.add_sub_cancel]
      exact .inr ⟨by ring, by ring⟩

theorem buddy_above (start : Addr) (order : Nat) (small : order < allocMaxOrder) (aligned : Aligned (order + 1, start)) :
    (start ^^^ intBit (order + 12)).toNat = start.toNat + 2 ^ (order + 12) := by
  have same := align_block_of_aligned start (order + 1) small aligned
  have positive := Nat.two_pow_pos (order + 12)
  rcases buddy_halves start order small (aligned_below order start aligned) with ⟨_, upper⟩ | ⟨lower, _⟩
  · rw [upper, same]
  · rw [same] at lower
    omega

def level (order : Nat) (starts : List Addr) : List Block := starts.map (fun start => (order, start))

-- Every block on free_lists[0..ALLOC_MAX_ORDER], list by list.
def listed (lists : FreeLists) : List Block :=
  (List.range (allocMaxOrder + 1)).flatMap (fun order => level order (lists order))

theorem mem_listed (lists : FreeLists) (block : Block) :
    block ∈ listed lists ↔ block.1 ≤ allocMaxOrder ∧ block.2 ∈ lists block.1 := by
  obtain ⟨order, start⟩ := block
  simp only [listed, level, List.mem_flatMap, List.mem_range, List.mem_map, Prod.mk.injEq]
  constructor
  · rintro ⟨other, below, found, member, rfl, rfl⟩
    exact ⟨by omega, member⟩
  · rintro ⟨below, member⟩
    exact ⟨order, by omega, start, member, rfl, rfl⟩

noncomputable def freeCover (lists : FreeLists) (byte : Nat) : Nat := cover bytes (listed lists) byte

def freeBytes (lists : FreeLists) : Set Nat := {byte | ∃ block ∈ listed lists, byte ∈ bytes block}

theorem mem_free_bytes (lists : FreeLists) (byte : Nat) : byte ∈ freeBytes lists ↔ 0 < freeCover lists byte :=
  (cover_pos_iff bytes (listed lists) byte).symm

theorem free_cover_empty (byte : Nat) : freeCover (fun _ => []) byte = 0 :=
  (cover_eq_zero_iff bytes _ byte).mpr fun block member => by simpa using ((mem_listed _ block).mp member).2

theorem free_cover_set (lists : FreeLists) (order : Nat) (starts : List Addr) (byte : Nat) (small : order ≤ allocMaxOrder) :
    freeCover (setList lists order starts) byte + cover bytes (level order (lists order)) byte =
      freeCover lists byte + cover bytes (level order starts) byte := by
  have family : (fun index => level index (setList lists order starts index)) =
      Function.update (fun index => level index (lists index)) order (level order starts) := by
    funext index
    by_cases same : index = order
    · subst same
      simp
    · simp [same]
  unfold freeCover listed
  rw [family]
  exact cover_flat_map_update bytes _ (fun index => level index (lists index)) order _ byte List.nodup_range
    (List.mem_range.mpr (by omega))

theorem level_cons_cover (order : Nat) (start : Addr) (rest : List Addr) (byte : Nat) :
    cover bytes (level order (start :: rest)) byte =
      cover bytes [(order, start)] byte + cover bytes (level order rest) byte :=
  cover_append bytes [(order, start)] (level order rest) byte

theorem free_cover_link (lists : FreeLists) (order : Nat) (start : Addr) (byte : Nat) (small : order ≤ allocMaxOrder) :
    freeCover (setList lists order (start :: lists order)) byte =
      freeCover lists byte + cover bytes [(order, start)] byte := by
  have push := free_cover_set lists order (start :: lists order) byte small
  rw [level_cons_cover] at push
  omega

theorem free_cover_unlink (lists : FreeLists) (order : Nat) (start : Addr) (byte : Nat) (small : order ≤ allocMaxOrder)
    (found : start ∈ lists order) :
    freeCover (setList lists order ((lists order).erase start)) byte + cover bytes [(order, start)] byte =
      freeCover lists byte := by
  have drop := free_cover_set lists order ((lists order).erase start) byte small
  have sameBlocks : (level order (lists order)).Perm (level order (start :: (lists order).erase start)) :=
    (List.perm_cons_erase found).map _
  rw [cover_perm bytes _ _ byte sameBlocks, level_cons_cover] at drop
  omega

theorem free_cover_pop (lists : FreeLists) (order : Nat) (start : Addr) (rest : List Addr) (byte : Nat)
    (small : order ≤ allocMaxOrder) (head : lists order = start :: rest) :
    freeCover (setList lists order rest) byte + cover bytes [(order, start)] byte = freeCover lists byte := by
  have drop := free_cover_set lists order rest byte small
  rw [head, level_cons_cover] at drop
  omega

end Kraftwerk.Pmem
