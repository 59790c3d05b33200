import Kraftwerk.Malloc.KfreeExact

set_option autoImplicit false

-- The address that each of the three ways to a chunk computes for its slot.
namespace Kraftwerk.Malloc

theorem chunk_inside (page slot order : Nat) (small : order ≤ 6) (inside : slot < slotCount order) :
    page ≤ getChunkAddress page slot order ∧ getChunkAddress page slot order + chunkBytes order ≤ page + pageSize := by
  obtain ⟨_, whole⟩ := large_order order (Nat.lt_succ_of_le small)
  have place : slot * chunkBytes order + chunkBytes order ≤ 4096 := by
    rw [← Nat.succ_mul, ← whole]
    exact Nat.mul_le_mul_right _ inside
  rw [chunk_address_eq, pageSize]
  omega

theorem chunks_apart (page one other order : Nat) (different : one ≠ other) :
    Apart (getChunkAddress page one order) (chunkBytes order) (getChunkAddress page other order) (chunkBytes order) := by
  have apart := slots_apart (chunkBytes order) one other different
  rw [Apart, chunk_address_eq, chunk_address_eq]
  omega

-- What a way to a chunk is to give: the chunk of the marked slot, inside the page, recorded
-- in the bitmap, and apart from the chunks of the other slots.
structure ServesSlot (heap : Heap) (page order : Nat) (served : Heap × Nat) : Prop where
  same : served.2 = getChunkAddress page (mallocMarkOpenSlot heap page).2 order
  inside : page ≤ served.2 ∧ served.2 + chunkBytes order ≤ page + pageSize
  recorded : slotTaken heap page (mallocMarkOpenSlot heap page).2 = false ∧
    slotTaken served.1 page (mallocMarkOpenSlot heap page).2 = true
  apart : ∀ other < slotCount order, other ≠ (mallocMarkOpenSlot heap page).2 →
    Apart served.2 (chunkBytes order) (getChunkAddress page other order) (chunkBytes order)

section
variable (heap : Heap) (page order : Nat)

theorem chunk_address_serves (slot : Nat) (later : Heap) (size : heap.chunkSize page = order) (small : order ≤ 6)
    (found : openSlot heap page = some slot) (marked : later.word = (setSlot heap page slot).word) :
    ServesSlot heap page order (later, getChunkAddress page slot order) := by
  obtain ⟨inside, wasOpen, _⟩ := (open_slot_eq_some_iff heap page slot).mp found
  have low := open_slot_low heap page slot found
  have taken := set_slot_taken heap page slot low
  rw [size] at inside
  refine ⟨?_, chunk_inside page slot order small inside, ?_, fun other _ different => ?_⟩
  · rw [mark_open_slot heap page slot found]
  · rw [mark_open_slot heap page slot found]
    rw [slotTaken] at taken
    exact ⟨open_slot_clear heap page slot wasOpen low, by rw [slotTaken, marked, taken]⟩
  · rw [mark_open_slot heap page slot found] at different
    exact chunks_apart page slot other order (Ne.symm different)

-- kmalloc counts the allocation first, but the slot is found from the bitmap alone.
theorem take_slot_serves (chosenPage slot : Nat) (size : heap.chunkSize page = order) (small : order ≤ 6)
    (data : heap.pageData chosenPage = page) (found : openSlot heap page = some slot) :
    ServesSlot heap page order (takeSlot heap chosenPage order) := by
  have scan : openSlot (heap.increment page) page = some slot := found
  rw [takeSlot, data, mark_open_slot _ page slot scan]
  exact chunk_address_serves heap page order slot _ size small found rfl

theorem descriptor_serves (kern : List (Nat × Nat) → Nat → Nat) (maxPage slot : Nat) (size : heap.chunkSize page = 0)
    (linked : maxPage ≠ 0) (data : heap.pageData maxPage = page) (found : openSlot heap page = some slot)
    (walk : fullestPage heap addressCount (heap.mallocPages 0) 0 0 = some maxPage) :
    ∃ served, mallocAllocateDescriptor kern heap = some served ∧ ServesSlot heap page 0 served := by
  rw [descriptor_eq, walk, Option.bind_some, if_neg linked, data]
  dsimp only
  rw [mark_open_slot heap page slot found]
  exact ⟨_, rfl, chunk_address_serves heap page 0 slot _ size (by decide) found rfl⟩

-- The pointer to the header is moved by as many headers as the chunk is bytes into the page.
theorem direct_alloc_address (size : heap.chunkSize page = order) :
    (mallocDirectAlloc heap page).2 = 0 ∨
      (0 < (mallocMarkOpenSlot heap page).2 ∧
        (mallocDirectAlloc heap page).2 = page + 48 * ((mallocMarkOpenSlot heap page).2 * chunkBytes order)) := by
  rw [mallocDirectAlloc]
  split
  · exact Or.inl rfl
  · rename_i marked
    have chunk := chunk_address_eq 0 (mallocMarkOpenSlot heap page).2 order
    rw [getChunkAddress, Nat.zero_add, Nat.zero_add] at chunk
    refine Or.inr ⟨Nat.pos_of_ne_zero marked, ?_⟩
    rw [size, chunk]

theorem direct_alloc_serves_not (heapPage : 0 < page) (size : heap.chunkSize page = order) :
    ¬ ServesSlot heap page order (mallocDirectAlloc heap page) := by
  intro serves
  have same := serves.same
  rw [chunk_address_eq] at same
  rcases direct_alloc_address heap page order size with null | ⟨marked, far⟩
  · omega
  · have positive : 0 < (mallocMarkOpenSlot heap page).2 * chunkBytes order := by
      refine Nat.mul_pos marked ?_
      rw [chunkBytes, Nat.shiftLeft_eq]
      exact Nat.mul_pos (by decide) (Nat.two_pow_pos order)
    omega

theorem direct_alloc_disagrees (heapPage : 0 < page) (size : heap.chunkSize page = order) (small : order ≤ 6) :
    ¬ ServesSlot heap page order (mallocDirectAlloc heap page) ∧
      ∀ slot, openSlot heap page = some slot →
        (∀ chosenPage, heap.pageData chosenPage = page → ServesSlot heap page order (takeSlot heap chosenPage order)) ∧
        (∀ kern maxPage, order = 0 → maxPage ≠ 0 → heap.pageData maxPage = page →
          fullestPage heap addressCount (heap.mallocPages 0) 0 0 = some maxPage →
          ∃ served, mallocAllocateDescriptor kern heap = some served ∧ ServesSlot heap page 0 served) := by
  refine ⟨direct_alloc_serves_not heap page order heapPage size, fun slot found => ⟨fun chosenPage data => ?_, ?_⟩⟩
  · exact take_slot_serves heap page order chosenPage slot size small data found
  · intro kern maxPage first linked data walk
    exact descriptor_serves heap page kern maxPage slot (size.trans first) linked data found walk

end

theorem direct_alloc_disagrees_page :
    ¬ ServesSlot (chunkPageHeap 7 0 0) 4096 0 (mallocDirectAlloc (chunkPageHeap 7 0 0) 4096) ∧
      ServesSlot (chunkPageHeap 7 0 0) 4096 0 (takeSlot (chunkPageHeap 7 0 0) 8192 0) := by
  obtain ⟨direct, listed⟩ := direct_alloc_disagrees (chunkPageHeap 7 0 0) 4096 0 (by decide) rfl (by decide)
  have found : openSlot (chunkPageHeap 7 0 0) 4096 = some 3 := by
    rw [open_slot_eq_some_iff]
    decide
  exact ⟨direct, (listed 3 found).1 8192 rfl⟩

theorem slot_three_address :
    (mallocMarkOpenSlot (chunkPageHeap 7 0 0) 4096).2 = 3 ∧ (mallocDirectAlloc (chunkPageHeap 7 0 0) 4096).2 = 6400 ∧
      getChunkAddress 4096 3 0 = 4144 ∧ ¬ ServesSlot (chunkPageHeap 7 0 0) 4096 0 (mallocDirectAlloc (chunkPageHeap 7 0 0) 4096) := by
  have found : openSlot (chunkPageHeap 7 0 0) 4096 = some 3 := by
    rw [open_slot_eq_some_iff]
    decide
  have marked := mark_open_slot (chunkPageHeap 7 0 0) 4096 3 found
  refine ⟨by rw [marked], ?_, rfl, direct_alloc_serves_not (chunkPageHeap 7 0 0) 4096 0 (by decide) rfl⟩
  rw [mallocDirectAlloc, marked]
  rfl

end Kraftwerk.Malloc
