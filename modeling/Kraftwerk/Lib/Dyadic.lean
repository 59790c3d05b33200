import Mathlib.Data.Set.Lattice
import Mathlib.Order.CompletePartialOrder
import Mathlib.Data.Nat.Bitwise

set_option autoImplicit false

-- Aligned power-of-two blocks of natural numbers: block (order, index) is
-- [index * 2^order, (index + 1) * 2^order).
namespace Dyadic

structure Block where
  order : Nat
  index : Nat
deriving DecidableEq, Repr

def points (block : Block) : Set Nat := {point | point / 2 ^ block.order = block.index}

def parent (block : Block) : Block := ⟨block.order + 1, block.index / 2⟩

def sibling (block : Block) : Block := ⟨block.order, block.index ^^^ 1⟩

@[simp] theorem mem_points (block : Block) (point : Nat) :
    point ∈ points block ↔ point / 2 ^ block.order = block.index := Iff.rfl

theorem sibling_index_even (index : Nat) (even : index % 2 = 0) : index ^^^ 1 = index + 1 :=
  Nat.xor_one_of_even (Nat.even_iff.mpr even)

theorem sibling_index_odd (index : Nat) (odd : index % 2 = 1) : index ^^^ 1 = index - 1 :=
  Nat.xor_one_of_odd (Nat.odd_iff.mpr odd)

theorem sibling_index_half (index : Nat) : (index ^^^ 1) / 2 = index / 2 := by
  rcases Nat.mod_two_eq_zero_or_one index with even | odd
  · rw [sibling_index_even index even]; omega
  · rw [sibling_index_odd index odd]; omega

theorem sibling_index_ne (index : Nat) : index ^^^ 1 ≠ index := by
  rcases Nat.mod_two_eq_zero_or_one index with even | odd
  · rw [sibling_index_even index even]; omega
  · rw [sibling_index_odd index odd]; omega

theorem sibling_index_le (index : Nat) : index ^^^ 1 ≤ index + 1 := by
  rcases Nat.mod_two_eq_zero_or_one index with even | odd
  · rw [sibling_index_even index even]
  · rw [sibling_index_odd index odd]; omega

theorem half_eq_iff (index other : Nat) : other / 2 = index / 2 ↔ other = index ∨ other = index ^^^ 1 := by
  rcases Nat.mod_two_eq_zero_or_one index with even | odd
  · rw [sibling_index_even index even]; omega
  · rw [sibling_index_odd index odd]; omega

theorem sibling_ne (block : Block) : sibling block ≠ block := by
  intro same
  exact sibling_index_ne block.index (congrArg Block.index same)

theorem parent_sibling (block : Block) : parent (sibling block) = parent block := by
  simp only [parent, sibling, sibling_index_half]

theorem points_nonempty (block : Block) : block.index * 2 ^ block.order ∈ points block := by
  simp

theorem points_parent (block : Block) : points (parent block) = points block ∪ points (sibling block) := by
  ext point
  simp only [Set.mem_union, mem_points, parent, sibling, Nat.pow_succ, ← Nat.div_div_eq_div_mul]
  exact half_eq_iff block.index (point / 2 ^ block.order)

theorem points_subset_parent (block : Block) : points block ⊆ points (parent block) := by
  rw [points_parent]
  exact Set.subset_union_left

theorem points_sibling_disjoint (block : Block) : Disjoint (points block) (points (sibling block)) := by
  refine Set.disjoint_left.mpr (fun point here there => ?_)
  exact sibling_index_ne block.index (there.symm.trans here)

theorem same_order_same_point (a b : Block) (point : Nat) (order : a.order = b.order)
    (inA : point ∈ points a) (inB : point ∈ points b) : a = b := by
  obtain ⟨orderA, indexA⟩ := a
  obtain ⟨orderB, indexB⟩ := b
  obtain rfl : orderA = orderB := order
  obtain rfl : indexA = indexB := inA.symm.trans inB
  rfl

theorem subset_of_meets (a b : Block) (point : Nat) (order : a.order ≤ b.order)
    (inA : point ∈ points a) (inB : point ∈ points b) : points a ⊆ points b := by
  intro other member
  rw [mem_points] at inA inB member ⊢
  obtain ⟨gap, gapEq⟩ := Nat.exists_eq_add_of_le order
  rw [gapEq, Nat.pow_add, ← Nat.div_div_eq_div_mul] at inB ⊢
  rw [member, ← inA]
  exact inB

theorem order_le_of_subset (a b : Block) (inside : points a ⊆ points b) : a.order ≤ b.order := by
  have firstIn := inside (points_nonempty a)
  have lastIn : a.index * 2 ^ a.order + (2 ^ a.order - 1) ∈ points b := by
    apply inside
    have positive := Nat.two_pow_pos a.order
    rw [mem_points, Nat.mul_comm, Nat.mul_add_div positive, Nat.div_eq_of_lt (by omega)]
    rfl
  by_contra larger
  have gap : 2 ^ b.order * 2 ≤ 2 ^ a.order := by
    rw [← Nat.pow_succ]
    exact Nat.pow_le_pow_right (by decide) (by omega)
  rw [mem_points] at firstIn lastIn
  have firstBound := Nat.div_add_mod (a.index * 2 ^ a.order) (2 ^ b.order)
  have lastBound := Nat.div_add_mod (a.index * 2 ^ a.order + (2 ^ a.order - 1)) (2 ^ b.order)
  have lastSmall := Nat.mod_lt (a.index * 2 ^ a.order + (2 ^ a.order - 1)) (Nat.two_pow_pos b.order)
  have positive := Nat.two_pow_pos b.order
  rw [firstIn] at firstBound
  rw [lastIn] at lastBound
  omega

theorem eq_of_subset_of_order (a b : Block) (order : b.order ≤ a.order) (inside : points a ⊆ points b) : a = b :=
  same_order_same_point a b _ (Nat.le_antisymm (order_le_of_subset a b inside) order)
    (points_nonempty a) (inside (points_nonempty a))

theorem parent_subset (a b : Block) (order : a.order < b.order) (inside : points a ⊆ points b) :
    points (parent a) ⊆ points b :=
  subset_of_meets (parent a) b _ order (points_subset_parent a (points_nonempty a)) (inside (points_nonempty a))

-- The aligned blocks inside a set that no larger aligned block inside it contains.
def IsMaximal (region : Set Nat) (block : Block) : Prop :=
  points block ⊆ region ∧ ∀ larger, points block ⊆ points larger → points larger ⊆ region → larger = block

-- Disjoint blocks of which no two are siblings: a fully coalesced decomposition.
structure Coalesced (blocks : Set Block) : Prop where
  disjoint : ∀ a ∈ blocks, ∀ b ∈ blocks, a ≠ b → Disjoint (points a) (points b)
  noSiblings : ∀ block ∈ blocks, sibling block ∉ blocks

def union (blocks : Set Block) : Set Nat := ⋃ block ∈ blocks, points block

theorem mem_union (blocks : Set Block) (point : Nat) :
    point ∈ union blocks ↔ ∃ block ∈ blocks, point ∈ points block := by
  simp only [union, Set.mem_iUnion, exists_prop]

theorem points_subset_union (blocks : Set Block) (block : Block) (member : block ∈ blocks) :
    points block ⊆ union blocks :=
  fun point inside => (mem_union blocks point).mpr ⟨block, member, inside⟩

-- Induction on the order: the two halves lie in listed blocks, which are either
-- one larger block or the halves themselves, and those are siblings.
theorem coalesced_contains (blocks : Set Block) (coalesced : Coalesced blocks) (order index : Nat)
    (inside : points ⟨order, index⟩ ⊆ union blocks) :
    ∃ block ∈ blocks, points ⟨order, index⟩ ⊆ points block := by
  induction order generalizing index with
  | zero =>
      obtain ⟨block, member, here⟩ := (mem_union blocks _).mp (inside (points_nonempty ⟨0, index⟩))
      exact ⟨block, member, subset_of_meets ⟨0, index⟩ block _ (Nat.zero_le _) (points_nonempty _) here⟩
  | succ order ih =>
      have halves : parent ⟨order, 2 * index⟩ = ⟨order + 1, index⟩ := by
        simp only [parent, Nat.mul_div_cancel_left index (by decide : 0 < 2)]
      have siblingHalf : sibling ⟨order, 2 * index⟩ = ⟨order, 2 * index + 1⟩ := by
        simp only [sibling, sibling_index_even (2 * index) (by omega)]
      have whole : points ⟨order + 1, index⟩ = points ⟨order, 2 * index⟩ ∪ points ⟨order, 2 * index + 1⟩ := by
        rw [← halves, points_parent, siblingHalf]
      rw [whole] at inside
      obtain ⟨lower, lowerMember, lowerInside⟩ := ih (2 * index) (Set.subset_union_left.trans inside)
      obtain ⟨upper, upperMember, upperInside⟩ := ih (2 * index + 1) (Set.subset_union_right.trans inside)
      rcases Nat.lt_or_ge order lower.order with larger | lowerSmall
      · exact ⟨lower, lowerMember, halves ▸ parent_subset _ lower larger lowerInside⟩
      rcases Nat.lt_or_ge order upper.order with larger | upperSmall
      · have upperParent : parent ⟨order, 2 * index + 1⟩ = ⟨order + 1, index⟩ := by
          rw [← halves, ← siblingHalf, parent_sibling]
        exact ⟨upper, upperMember, upperParent ▸ parent_subset _ upper larger upperInside⟩
      · have lowerEq := eq_of_subset_of_order ⟨order, 2 * index⟩ lower lowerSmall lowerInside
        have upperEq := eq_of_subset_of_order ⟨order, 2 * index + 1⟩ upper upperSmall upperInside
        subst lowerEq upperEq
        exact absurd (siblingHalf ▸ upperMember) (coalesced.noSiblings _ lowerMember)

-- A coalesced decomposition is determined by the points it covers.
theorem coalesced_iff_maximal (blocks : Set Block) (coalesced : Coalesced blocks) (block : Block) :
    block ∈ blocks ↔ IsMaximal (union blocks) block := by
  constructor
  · intro member
    refine ⟨points_subset_union blocks block member, fun larger outer inside => ?_⟩
    obtain ⟨listed, listedMember, contains⟩ := coalesced_contains blocks coalesced larger.order larger.index inside
    have same : block = listed := by
      by_contra different
      exact Set.disjoint_left.mp (coalesced.disjoint block member listed listedMember different)
        (points_nonempty block) (contains (outer (points_nonempty block)))
    subst same
    exact eq_of_subset_of_order larger block (order_le_of_subset block larger outer) contains
  · rintro ⟨inside, maximal⟩
    obtain ⟨listed, listedMember, contains⟩ := coalesced_contains blocks coalesced block.order block.index inside
    exact maximal listed contains (points_subset_union blocks listed listedMember) ▸ listedMember

end Dyadic
