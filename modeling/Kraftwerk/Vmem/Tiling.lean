import Kraftwerk.Vmem.Regions
import Mathlib.Algebra.Ring.Nat
import Mathlib.Data.Set.Lattice
import Mathlib.Order.CompletePartialOrder

set_option autoImplicit false

namespace Kraftwerk.Vmem

-- The pages of a range, each by its first address.
def pageRange (start : Addr) (count : Nat) : Set Addr :=
  {page | ∃ index, index < count ∧ page = start + BitVec.ofNat 64 (index * 4096)}

def nodePages (node : Node) : Set Addr := pageRange node.allocSt node.size.toNat

def pagesOf (free : Bool) (nodes : List Node) : Set Addr := {page | ∃ node ∈ nodes, node.free = free ∧ page ∈ nodePages node}

def TilesFrom (start : Addr) : List Node → Prop
  | [] => True
  | node :: rest => node.allocSt = start ∧ TilesFrom (start + node.size <<< 12) rest

def totalPages (nodes : List Node) : Nat := (nodes.map (fun node => node.size.toNat)).sum

structure Tiles (reg : Region) : Prop where
  small : reg.regSize.toNat ≤ 2 ^ 52
  chained : TilesFrom reg.regStart reg.list
  total : totalPages reg.list = reg.regSize.toNat

theorem mem_pages_cons (free : Bool) (node : Node) (rest : List Node) (page : Addr) :
    page ∈ pagesOf free (node :: rest) ↔ (node.free = free ∧ page ∈ nodePages node) ∨ page ∈ pagesOf free rest := by
  simp only [pagesOf, Set.mem_ofPred_eq, List.mem_cons, exists_eq_or_imp]

theorem pages_of_free (node : Node) (rest : List Node) (free : node.free = true) :
    pagesOf true (node :: rest) = nodePages node ∪ pagesOf true rest ∧ pagesOf false (node :: rest) = pagesOf false rest := by
  constructor
  · ext page
    rw [mem_pages_cons, Set.mem_union, free]
    exact or_congr_left (and_iff_right rfl)
  · ext page
    rw [mem_pages_cons, free]
    exact or_iff_right (fun taken => Bool.noConfusion taken.1)

theorem pages_of_taken (node : Node) (rest : List Node) (taken : node.free = false) :
    pagesOf true (node :: rest) = pagesOf true rest ∧ pagesOf false (node :: rest) = nodePages node ∪ pagesOf false rest := by
  constructor
  · ext page
    rw [mem_pages_cons, taken]
    exact or_iff_right (fun free => Bool.noConfusion free.1)
  · ext page
    rw [mem_pages_cons, Set.mem_union, taken]
    exact or_congr_left (and_iff_right rfl)

@[simp] theorem total_pages_cons (node : Node) (rest : List Node) :
    totalPages (node :: rest) = node.size.toNat + totalPages rest := by
  rw [totalPages, List.map_cons, List.sum_cons, totalPages]

theorem pages_nil (free : Bool) : pagesOf free [] = ∅ := by
  simp [pagesOf]

theorem shift_page_count (size : BitVec 64) : size <<< 12 = BitVec.ofNat 64 (size.toNat * 4096) := by
  apply BitVec.eq_of_toNat_eq
  rw [BitVec.toNat_shiftLeft, BitVec.toNat_ofNat, Nat.shiftLeft_eq]

theorem page_range_add (start : Addr) (front back : Nat) :
    pageRange start (front + back) =
      pageRange start front ∪ pageRange (start + BitVec.ofNat 64 (front * 4096)) back := by
  ext page
  simp only [pageRange, Set.mem_union, Set.mem_ofPred_eq]
  constructor
  · rintro ⟨index, below, rfl⟩
    by_cases early : index < front
    · exact .inl ⟨index, early, rfl⟩
    · refine .inr ⟨index - front, by omega, ?_⟩
      rw [BitVec.add_assoc, ← BitVec.ofNat_add, ← Nat.add_mul, show front + (index - front) = index by omega]
  · rintro (⟨index, below, rfl⟩ | ⟨index, below, rfl⟩)
    · exact ⟨index, by omega, rfl⟩
    · refine ⟨front + index, by omega, ?_⟩
      rw [BitVec.add_assoc, ← BitVec.ofNat_add, ← Nat.add_mul]

-- Fewer than 2^52 pages do not wrap onto themselves.
theorem page_range_disjoint (start : Addr) (front back : Nat) (small : front + back ≤ 2 ^ 52) :
    Disjoint (pageRange start front) (pageRange (start + BitVec.ofNat 64 (front * 4096)) back) := by
  refine Set.disjoint_left.mpr ?_
  rintro page ⟨index, below, rfl⟩ ⟨other, otherBelow, same⟩
  rw [BitVec.add_assoc, ← BitVec.ofNat_add, ← Nat.add_mul, BitVec.add_right_inj] at same
  have numbers := congrArg BitVec.toNat same
  rw [BitVec.toNat_ofNat, BitVec.toNat_ofNat, Nat.mod_eq_of_lt (by omega), Nat.mod_eq_of_lt (by omega)] at numbers
  omega

theorem tiled_pages_subset (start : Addr) (nodes : List Node) (free : Bool) (tiles : TilesFrom start nodes) :
    pagesOf free nodes ⊆ pageRange start (totalPages nodes) := by
  induction nodes generalizing start with
  | nil => simp [pages_nil]
  | cons node rest ih =>
      obtain ⟨rfl, later⟩ := tiles
      have restSubset := ih _ later
      rw [shift_page_count] at restSubset
      intro page member
      rw [total_pages_cons, page_range_add]
      cases (mem_pages_cons free node rest page).mp member with
      | inl here => exact .inl here.2
      | inr there => exact .inr (restSubset there)

theorem first_pages_apart (start : Addr) (node : Node) (rest : List Node) (free : Bool) (tiles : TilesFrom start (node :: rest))
    (small : totalPages (node :: rest) ≤ 2 ^ 52) : Disjoint (nodePages node) (pagesOf free rest) := by
  obtain ⟨rfl, later⟩ := tiles
  rw [total_pages_cons] at small
  have apart := page_range_disjoint node.allocSt node.size.toNat (totalPages rest) small
  rw [← shift_page_count] at apart
  exact apart.mono_right (tiled_pages_subset _ rest free later)

theorem free_taken_disjoint (start : Addr) (nodes : List Node) (tiles : TilesFrom start nodes)
    (small : totalPages nodes ≤ 2 ^ 52) : Disjoint (pagesOf true nodes) (pagesOf false nodes) := by
  induction nodes generalizing start with
  | nil => simp [pages_nil]
  | cons node rest ih =>
      have apart := fun free => first_pages_apart start node rest free tiles small
      rw [total_pages_cons] at small
      have restApart := ih _ tiles.2 (by omega)
      cases used : node.free with
      | true =>
          obtain ⟨free, taken⟩ := pages_of_free node rest used
          rw [free, taken]
          exact Set.disjoint_union_left.mpr ⟨apart false, restApart⟩
      | false =>
          obtain ⟨free, taken⟩ := pages_of_taken node rest used
          rw [free, taken]
          exact Set.disjoint_union_right.mpr ⟨(apart true).symm, restApart⟩

end Kraftwerk.Vmem
