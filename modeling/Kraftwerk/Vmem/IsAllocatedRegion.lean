import Kraftwerk.Vmem.LinkedRefinement
import Kraftwerk.Vmem.ReserveRange
import Kraftwerk.Vmem.Walks

set_option autoImplicit false

-- is_allocated_region against the free nodes of the whole list.
namespace Kraftwerk.Vmem.Linked

def AnswersExactly (reg : RegDesc) (memory : Memory) (nodes : List Node) (whereAddr : Addr) (nPages : BitVec 32) : Prop :=
  ∃ fuel answer, isAllocatedRegion fuel reg whereAddr nPages memory = some answer ∧
    (answer = false ↔ ∃ node ∈ nodes, node.free = true ∧ Contains node whereAddr nPages)

structure InsideRegion (reg : RegDesc) (whereAddr : Addr) (nPages : BitVec 32) : Prop where
  pages : 0 < nPages.toNat
  starts : reg.regStart.toNat ≤ whereAddr.toNat
  ends : whereAddr.toNat + nPages.toNat * 4096 ≤ reg.regStart.toNat + reg.regSize.toNat * 4096

-- The loop never moves on, so that the first node alone decides.
theorem is_allocated_first (whereAddr : Addr) (nPages : BitVec 32) (fuel : Nat) (cur : Ptr) (memory : Memory) (answer : Bool)
    (notNull : cur ≠ 0) :
    isAllocatedFrom whereAddr nPages fuel cur memory = some answer ↔
      0 < fuel ∧ answer = false ∧ (memory.nodes cur).free = true ∧
        ComparesInside (memory.nodes cur).toNode whereAddr nPages := by
  rw [← fits_reserve_iff]
  induction fuel with
  | zero => simp [isAllocatedFrom]
  | succ fuel ih =>
      rw [isAllocatedFrom, if_neg notNull]
      cases free : (memory.nodes cur).free with
      | false => simp
      | true =>
          by_cases fits : fitsReserve (memory.nodes cur).toNode whereAddr nPages = true
          · simp [fits, eq_comm]
          · rw [Bool.not_true, if_neg Bool.false_ne_true, if_neg fits, ih]
            simp [fits]

theorem is_allocated_region_exact_iff (reg : RegDesc) (memory : Memory) (pointers : List Ptr) (nodes : List Node)
    (whereAddr : Addr) (nPages : BitVec 32) (rep : NodesRep memory reg.list pointers nodes)
    (tiles : Tiles ⟨reg.regStart, reg.regSize, nodes⟩) (inside : InsideRegion reg whereAddr nPages) :
    AnswersExactly reg memory nodes whereAddr nPages ↔
      (∃ first, nodes.head? = some first ∧ first.free = true ∧ ComparesInside first whereAddr nPages) ∧
        ∃ node ∈ nodes, node.free = true ∧ Contains node whereAddr nPages := by
  obtain ⟨pages, starts, ends⟩ := inside
  have total : totalPages nodes = reg.regSize.toNat := tiles.total
  obtain ⟨head, list⟩ : ∃ head, reg.list = head := ⟨_, rfl⟩
  rw [list] at rep
  cases rep with
  | nil =>
      have empty : totalPages [] = 0 := rfl
      omega
  | cons _ pointers nodes notNull rest =>
      have first := fun fuel answer => is_allocated_first whereAddr nPages fuel head memory answer notNull
      simp only [AnswersExactly, isAllocatedRegion, list]
      constructor
      · rintro ⟨fuel, answer, done, exact⟩
        obtain ⟨_, answered, free, compares⟩ := (first fuel answer).mp done
        exact ⟨⟨_, rfl, free, compares⟩, exact.mp answered⟩
      · rintro ⟨⟨node, head, free, compares⟩, contained⟩
        obtain rfl := Option.some.inj head
        refine ⟨1, false, (first 1 false).mpr ⟨Nat.one_pos, rfl, free, compares⟩, ?_⟩
        exact ⟨fun _ => contained, fun _ => rfl⟩

theorem top_reserved_nodes_rep : NodesRep topReservedMemory topReservedRegion.list [4096, 8192]
    [⟨hhStart, 512, true⟩, ⟨hhStart + 0x200000, 0x7FFFFFE00, false⟩] := by
  refine nodes_rep_cons _ _ 8192 _ _ _ (by decide) rfl ?_
  exact nodes_rep_cons _ _ 0 _ _ _ (by decide) rfl .nil

theorem top_reserved_tiles : Tiles ⟨topReservedRegion.regStart, topReservedRegion.regSize,
    [⟨hhStart, 512, true⟩, ⟨hhStart + 0x200000, 0x7FFFFFE00, false⟩]⟩ :=
  ⟨by decide, ⟨rfl, by decide, trivial⟩, by decide⟩

theorem top_reserved_first_page_answered : AnswersExactly topReservedRegion topReservedMemory
    [⟨hhStart, 512, true⟩, ⟨hhStart + 0x200000, 0x7FFFFFE00, false⟩] hhStart 1 := by
  refine (is_allocated_region_exact_iff topReservedRegion topReservedMemory _ _ hhStart 1 top_reserved_nodes_rep top_reserved_tiles
    ⟨by decide, by decide, by decide⟩).mpr ⟨⟨_, rfl, rfl, ?_⟩, _, List.mem_cons_self, rfl, ?_⟩
  · rw [ComparesInside]
    decide
  · rw [Contains]
    decide

-- About a page that is in use there is no answer.
theorem top_reserved_used_page_unanswered : ¬ AnswersExactly topReservedRegion topReservedMemory
    [⟨hhStart, 512, true⟩, ⟨hhStart + 0x200000, 0x7FFFFFE00, false⟩] (hhStart + 0x200000) 1 := by
  rintro ⟨fuel, answer, done, _⟩
  obtain ⟨_, _, _, compares⟩ := (is_allocated_first (hhStart + 0x200000) 1 fuel 4096 topReservedMemory answer (by decide)).mp done
  rw [ComparesInside] at compares
  exact absurd compares (by decide)

end Kraftwerk.Vmem.Linked
