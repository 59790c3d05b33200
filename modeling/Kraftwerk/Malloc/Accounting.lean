import Kraftwerk.Malloc.HeapRuns
import Mathlib.Data.Nat.Bitwise

set_option autoImplicit false

-- The lists, bitmaps and counters that kmalloc relies on, and where malloc_init leaves them.
namespace Kraftwerk.Malloc

inductive OnList (heap : Heap) (head : Nat) : Nat → Prop where
  | head (linked : head ≠ 0) : OnList heap head head
  | next (descriptor : Nat) (before : OnList heap head descriptor) (linked : heap.next descriptor ≠ 0) :
      OnList heap head (heap.next descriptor)

def reservedSlots (order : Nat) : Nat := if order = 0 then 3 else if order = 1 then 2 else 1

-- One bit a slot, as the comment at the top of malloc.cpp describes the bitmap.
def slotTaken (heap : Heap) (page slot : Nat) : Bool := (heap.word (bitmapWord page slot)).testBit (slot % 64)

def takenSlots (heap : Heap) (page order : Nat) : Nat :=
  (List.range' (reservedSlots order) (slotCount order - reservedSlots order)).countP (slotTaken heap page)

structure PageAccounted (heap : Heap) (order page : Nat) : Prop where
  size : heap.chunkSize page = order
  reserved : ∀ slot < reservedSlots order, slotTaken heap page slot = true
  count : heap.nAllocations page = takenSlots heap page order
  room : hasRoom order (heap.nAllocations page) = true →
    (∃ slot < slotCount order, slotTaken heap page slot = false) ∧ (mallocMarkOpenSlot heap page).2 ≠ 0 ∧
      page ≤ getChunkAddress page (mallocMarkOpenSlot heap page).2 order ∧
      getChunkAddress page (mallocMarkOpenSlot heap page).2 order + chunkBytes order ≤ page + pageSize

def Accounted (heap : Heap) : Prop :=
  ∀ order < 7, ∀ descriptor, OnList heap (heap.mallocPages order) descriptor →
    PageAccounted heap order (heap.pageData descriptor)

theorem core_on_list (base : Nat) (heap : Heap) (core : Core base heap) (order index : Nat) (low : order < 2)
    (few : index ≤ 15) : OnList heap (heap.mallocPages order) (initDescriptor base (30 + order - 2 * index)) := by
  have nonzero : ∀ j, initDescriptor base j ≠ 0 := fun j => by
    have place := init_descriptor_cases base j
    omega
  induction index with
  | zero =>
      have head : heap.mallocPages order = initDescriptor base (30 + order) := by
        rw [core.lists order]
        interval_cases order
        · rfl
        · rfl
      rw [head]
      exact .head (nonzero _)
  | succ index ih =>
      have linked := core.next (30 + order - 2 * index) (by omega)
      rw [if_neg (by omega)] at linked
      have before := ih (by omega)
      rw [show 30 + order - 2 * (index + 1) = 30 + order - 2 * index - 2 by omega, ← linked]
      exact .next _ before (linked ▸ nonzero _)

-- Descriptor 13 lies where the header of page 3 is, so its page pointer is that page's bitmap.
theorem core_unreserved (base : Nat) (heap : Heap) (aligned : base % pageSize = 0) (core : Core base heap) :
    slotTaken heap (initPage base 3) 0 = false := by
  have data : heap.word (initPage base 3) = initPage base 13 := core.data 13 (by decide)
  rw [slotTaken, bitmapWord, Nat.zero_div, Nat.mul_zero, Nat.add_zero, data, Nat.zero_mod, Nat.testBit_zero]
  rw [pageSize] at aligned
  rw [initPage, pageSize, decide_eq_false_iff_not]
  omega

theorem core_not_accounted (base : Nat) (heap : Heap) (aligned : base % pageSize = 0) (core : Core base heap) :
    ¬ Accounted heap := by
  intro accounted
  have linked := core_on_list base heap core 1 14 (by decide) (by decide)
  have page := accounted 1 (by decide) _ linked
  rw [show 30 + 1 - 2 * 14 = 3 from rfl, core.data 3 (by decide)] at page
  have unreserved := core_unreserved base heap aligned core
  rw [page.reserved 0 (by decide)] at unreserved
  cases unreserved

section
variable (base : Nat) (kern : List (Nat × Nat) → Nat → KernAnswer) (word chunkSize nAllocations : Nat → Nat)

-- No run stays accounted, since it starts in a state that is not; and no state of a run
-- that meets none of the allocator's other defects is accounted either.
theorem runs_not_accounted (aligned : base % pageSize = 0) :
    ∃ heap, mallocInit base (boot base word chunkSize nAllocations) = some heap ∧
      ∀ calls, ¬ Runs.Stays (step kern) (fun sys => Accounted sys.heap) ⟨heap, []⟩ calls ∧
        (Fresh kern base → Runs.Along (step kern) (Guard kern) ⟨heap, []⟩ calls →
          Runs.Visits (step kern) (fun sys => ¬ Accounted sys.heap) ⟨heap, []⟩ calls) := by
  obtain ⟨heap, init, stocked⟩ := malloc_init_stocked base word chunkSize nAllocations
  have unaccounted : ∀ sys, RunInv base kern sys → ¬ Accounted sys.heap := fun sys inv =>
    core_not_accounted base sys.heap aligned inv.inv.core
  refine ⟨heap, init, fun calls => ⟨?_, ?_⟩⟩
  · intro stays
    exact core_not_accounted base heap aligned stocked.core (Runs.stays_start (step kern) _ ⟨heap, []⟩ calls stays)
  · intro fresh along
    have visits := guarded_runs_inv base kern heap calls aligned fresh stocked along
    exact Runs.visits_mono (step kern) (RunInv base kern) _ _ calls unaccounted visits

end

theorem not_accounted_split_up :
    ∃ heap, mallocInit 0x100000 (boot 0x100000 (fun _ => 0) (fun _ => 0) (fun _ => 0)) = some heap ∧
      ∀ calls, ¬ Runs.Stays (step (splitUp 0x100000)) (fun sys => Accounted sys.heap) ⟨heap, []⟩ calls ∧
        (Fresh (splitUp 0x100000) 0x100000 → Runs.Along (step (splitUp 0x100000)) (Guard (splitUp 0x100000)) ⟨heap, []⟩ calls →
          Runs.Visits (step (splitUp 0x100000)) (fun sys => ¬ Accounted sys.heap) ⟨heap, []⟩ calls) :=
  runs_not_accounted 0x100000 (splitUp 0x100000) (fun _ => 0) (fun _ => 0) (fun _ => 0) rfl

theorem direct_descriptor_chunk_size (heap : Heap) (page : Nat) :
    (directDescriptor heap page).1.chunkSize = heap.chunkSize := by
  have marked : (mallocMarkOpenSlot heap page).1.chunkSize = heap.chunkSize := by
    rw [mallocMarkOpenSlot]
    split
    · rfl
    · rfl
  rw [directDescriptor, mallocDirectAlloc]
  split
  · exact marked
  · exact marked

theorem init_emerg_chunk_size (base : Nat) (rest : List Nat) (heap later : Heap) (emergHead : Nat)
    (done : initEmerg base rest heap emergHead = some later) :
    later.chunkSize (initPage base 1) = heap.chunkSize (initPage base 1) := by
  induction rest generalizing heap emergHead with
  | nil => exact Option.some.inj done ▸ rfl
  | cons i rest ih =>
      rw [initEmerg] at done
      obtain ⟨cur, _, turn⟩ := Option.bind_eq_some_iff.mp done
      split at turn
      · cases turn
      · have different : initPage base 1 ≠ initPage base (mallocInitPages + i) := by
          rw [initPage, initPage, pageSize, mallocInitPages]
          omega
        refine (ih _ _ turn).trans ((Function.update_of_ne different _ _).trans ?_)
        exact congrFun (direct_descriptor_chunk_size heap _) _

-- p1_descriptor becomes the tail of malloc_pages[1], but its page is prepared for order 0.
theorem first_order_page (base : Nat) (word chunkSize nAllocations : Nat → Nat) (heap : Heap)
    (init : mallocInit base (boot base word chunkSize nAllocations) = some heap) :
    heap.chunkSize (initPage base 1) = 0 := by
  obtain ⟨begun, linkedBegun, start⟩ := init_start_linked base word chunkSize nAllocations
  obtain ⟨lists, fold, linked⟩ := init_lists_linked base begun 15 (Nat.le_refl 15) linkedBegun
  rw [mallocInit, start, show mallocInitPages / 2 - 1 = 15 from rfl, fold] at init
  exact (init_emerg_chunk_size base _ _ heap 0 init).trans (linked.orders 1 (by decide) (by decide))

theorem first_order_page_misfiled :
    ∃ heap, mallocInit 0x100000 (boot 0x100000 (fun _ => 0) (fun _ => 0) (fun _ => 0)) = some heap ∧
      OnList heap (heap.mallocPages 1) 0x100C00 ∧ heap.pageData 0x100C00 = 0x101000 ∧ heap.chunkSize 0x101000 = 0 ∧
        ¬ Accounted heap := by
  obtain ⟨heap, init, stocked⟩ := malloc_init_stocked 0x100000 (fun _ => 0) (fun _ => 0) (fun _ => 0)
  have linked := core_on_list 0x100000 heap stocked.core 1 15 (by decide) (by decide)
  exact ⟨heap, init, linked, stocked.core.data 1 (by decide), first_order_page 0x100000 _ _ _ heap init,
    core_not_accounted 0x100000 heap rfl stocked.core⟩

end Kraftwerk.Malloc
