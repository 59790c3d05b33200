import Kraftwerk.Malloc.Invariant

set_option autoImplicit false

namespace Kraftwerk.Malloc

theorem safe_erase (heap later : Heap) (live : List (Nat × Nat)) (allocation : Nat × Nat) (safe : Separate heap live)
    (pages : later.pages = heap.pages) (direct : later.direct = heap.direct)
    (descriptors : later.descriptors = heap.descriptors) : Separate later (live.erase allocation) := by
  refine ⟨safe.ranges.sublist List.erase_sublist, ?_, ?_⟩
  · intro other member page pageMember
    exact safe.headers other (List.mem_of_mem_erase member) page (pages ▸ pageMember)
  · intro other member descriptor descriptorMember
    have list : descriptor ∈ later.direct ++ later.descriptors := descriptorMember
    rw [direct, descriptors] at list
    exact safe.descriptors other (List.mem_of_mem_erase member) descriptor list

theorem users_erase (base order : Nat) (heap later : Heap) (live : List (Nat × Nat)) (allocation : Nat × Nat)
    (member : allocation ∈ live) (descriptors : later.descriptors = heap.descriptors) :
    ((System.mk heap live).users base order).Perm
      (if onPage (chunkPage base order) allocation = true then
        allocation.1 :: (System.mk later (live.erase allocation)).users base order
      else (System.mk later (live.erase allocation)).users base order) := by
  have perm := (List.perm_cons_erase member).filter (onPage (chunkPage base order))
  have users : ((System.mk heap live).users base order).Perm
      ((System.mk heap (allocation :: live.erase allocation)).users base order) :=
    (perm.map Prod.fst).append_right _
  rwa [users_cons base order later heap _ _ descriptors.symm] at users

section
variable (heap : Heap) (allocation : Nat)

theorem freed_slot_small (page : Nat) : freedSlot heap page allocation < 64 := by
  have amount : allocation % 1024 < 1024 := Nat.mod_lt _ (by decide)
  have power : 2 ^ 4 ≤ 2 ^ (heap.chunkSize page + 4) := Nat.pow_le_pow_right (by decide) (Nat.le_add_left 4 _)
  rw [freedSlot, Nat.shiftRight_eq_div_pow]
  refine Nat.lt_of_le_of_lt (Nat.div_le_div_left power (by decide)) ?_
  omega

-- kfree changes one bitmap word and the count of the page it finds.
theorem kfree_word (address : Nat) (outside : address ≠ allocation / pageSize * pageSize) :
    (kfree heap allocation).word address = heap.word address := by
  have small := freed_slot_small heap allocation (allocation / pageSize * pageSize)
  have apart : address ≠ bitmapWord (allocation / pageSize * pageSize)
      (freedSlot heap (allocation / pageSize * pageSize) allocation) := by
    rw [bitmapWord]
    omega
  rw [kfree]
  split
  · exact Function.update_of_ne apart _ _
  · exact Function.update_of_ne outside _ _

theorem kfree_count (page : Nat) (different : page ≠ allocation / pageSize * pageSize) :
    (kfree heap allocation).nAllocations page = heap.nAllocations page := by
  rw [kfree]
  split
  · exact Function.update_of_ne different _ _
  · exact Function.update_of_ne different _ _

theorem kfree_rest : (kfree heap allocation).chunkSize = heap.chunkSize ∧
    (kfree heap allocation).mallocPages = heap.mallocPages ∧ (kfree heap allocation).emergPages = heap.emergPages ∧
    (kfree heap allocation).mapped = heap.mapped ∧ (kfree heap allocation).pages = heap.pages ∧
    (kfree heap allocation).direct = heap.direct ∧ (kfree heap allocation).descriptors = heap.descriptors ∧
    (kfree heap allocation).nodes = heap.nodes := by
  rw [kfree]
  split <;> exact ⟨rfl, rfl, rfl, rfl, rfl, rfl, rfl, rfl⟩

end

section
variable (base : Nat) (heap : Heap) (live : List (Nat × Nat)) (allocation : Nat × Nat)

-- The page that kfree works on is one of chunks or one of allocate_kern.
theorem freed_page (aligned : base % pageSize = 0) (inv : Inv base ⟨heap, live⟩) (member : allocation ∈ live) :
    allocation.1 / pageSize * pageSize + pageSize ≤ base ∨ base + 122880 ≤ allocation.1 / pageSize * pageSize := by
  have size : pageSize = 4096 := rfl
  rw [size] at aligned ⊢
  rcases inv.placed allocation member with ⟨order, low, on, _⟩ | ⟨run, runMember, begins, inside, _⟩
  · have page := chunk_page_eq base order
    rw [on_page_iff, size] at on
    omega
  · obtain ⟨runAligned, runWhole, outside, _⟩ := inv.runs run runMember
    rw [size] at runAligned runWhole
    omega

theorem chunks_free_elsewhere (order : Nat) (aligned : base % pageSize = 0) (inv : Inv base ⟨heap, live⟩)
    (member : allocation ∈ live) (low : order < 2) (elsewhere : allocation.1 / pageSize * pageSize ≠ chunkPage base order) :
    Chunks (kfree heap allocation.1) (chunkPage base order) order (if order = 0 then 32 else 0)
      ((System.mk (kfree heap allocation.1) (live.erase allocation)).users base order) := by
  have size : pageSize = 4096 := rfl
  obtain ⟨sizes, _, _, _, _, _, descriptors, _⟩ := kfree_rest heap allocation.1
  obtain ⟨atLeast, _, few, _, _⟩ := chunk_sizes order low
  have page := chunk_page_eq base order
  have counts := kfree_count heap allocation.1 _ elsewhere.symm
  rw [size] at aligned elsewhere
  have off : ¬ onPage (chunkPage base order) allocation = true := by
    rw [on_page_iff, size]
    omega
  have perm := users_erase base order heap (kfree heap allocation.1) live allocation member descriptors
  rw [if_neg off] at perm
  refine chunks_perm _ _ order _ _ _ perm ?_
  refine chunks_frame heap _ _ order _ _ (fun word small => ?_) (congrFun sizes _) counts few atLeast
    (inv.chunks order low)
  refine kfree_word heap allocation.1 _ ?_
  rw [size]
  omega

theorem chunk_short (order : Nat) (inv : Inv base ⟨heap, live⟩) (member : allocation ∈ live) (low : order < 2)
    (on : onPage (chunkPage base order) allocation = true) : allocation.2 ≤ 32 := by
  rw [on_page_iff, pageSize] at on
  have page := chunk_page_eq base order
  rcases inv.placed allocation member with ⟨other, otherLow, _, short⟩ | ⟨run, runMember, begins, inside, _⟩
  · exact Nat.le_trans short (chunk_sizes other otherLow).2.1
  · have outside := (inv.runs run runMember).2.2.1
    omega

theorem chunks_free_here (order : Nat) (aligned : base % pageSize = 0) (inv : Inv base ⟨heap, live⟩) (member : allocation ∈ live) (low : order < 2)
    (here : allocation.1 / pageSize * pageSize = chunkPage base order) (guard : KfreeGuard heap live allocation) :
    Chunks (kfree heap allocation.1) (chunkPage base order) order (if order = 0 then 32 else 0)
      ((System.mk (kfree heap allocation.1) (live.erase allocation)).users base order) := by
  have chunks := inv.chunks order low
  have sizeIs : heap.chunkSize (chunkPage base order) = order := chunks.size
  have descriptors := (kfree_rest heap allocation.1).2.2.2.2.2.2.1
  have on : onPage (chunkPage base order) allocation = true := by
    rw [on_page_iff, ← here, pageSize]
    omega
  obtain ⟨slot, below, slotLow, past, place, _⟩ := chunks.slots allocation.1 (mem_users ⟨heap, live⟩ base order allocation member on)
  have freed : kfree heap allocation.1 = (clearSlot heap (chunkPage base order)
      (freedSlot heap (chunkPage base order) allocation.1)).decrement (chunkPage base order) := by
    rw [kfree, here, if_pos (by rw [sizeIs]; omega)]
  have clearedLow : freedSlot heap (chunkPage base order) allocation.1 < 32 := by
    have page := chunk_page_eq base order
    rw [pageSize] at aligned
    rw [freedSlot, sizeIs, Nat.shiftRight_eq_div_pow, place, page]
    interval_cases order
    · rw [chunk_bytes_zero]
      omega
    · rw [chunk_bytes_one]
      omega
  rw [KfreeGuard] at guard
  rw [here, sizeIs, chunk_address_eq] at guard
  have short := chunk_short base heap live allocation order inv member low on
  have perm := users_erase base order heap (kfree heap allocation.1) live allocation member descriptors
  rw [if_pos on] at perm
  have listed := chunks_perm heap _ order _ _ _ perm chunks
  have length := chunks_length heap _ order _ _ listed
  obtain ⟨_, _, _, card, _⟩ := chunk_sizes order low
  rw [List.length_cons] at length
  have unused : chunkPage base order + freedSlot heap (chunkPage base order) allocation.1 * chunkBytes order ∉
      (System.mk (kfree heap allocation.1) (live.erase allocation)).users base order := by
    intro used
    rcases guard with long | same | ⟨_, notLive, notDescriptor⟩
    · omega
    · rw [same] at used
      exact (List.nodup_cons.mp listed.nodup).1 used
    · rcases List.mem_append.mp used with used | used
      · obtain ⟨other, otherMember, same⟩ := List.mem_map.mp used
        have otherLive := List.mem_of_mem_erase (List.mem_filter.mp otherMember).1
        exact notLive (List.mem_map.mpr ⟨other, otherLive, same⟩)
      · split at used
        · exact notDescriptor (descriptors ▸ used)
        · cases used
  have kept := chunks_clear heap _ order _ _ _ _ clearedLow (by omega) unused (by omega) listed
  rwa [← freed] at kept

theorem inv_free (aligned : base % pageSize = 0) (inv : Inv base ⟨heap, live⟩) (member : allocation ∈ live)
    (guard : KfreeGuard heap live allocation) : Inv base ⟨kfree heap allocation.1, live.erase allocation⟩ := by
  have size : pageSize = 4096 := rfl
  obtain ⟨_, lists, emerg, mapped, pages, direct, descriptors, _⟩ := kfree_rest heap allocation.1
  have outside := freed_page base heap live allocation aligned inv member
  rw [size] at outside
  refine ⟨?_, fun order low => ?_, fun other otherMember => ?_, mapped ▸ inv.runs, direct ▸ inv.direct, ?_,
    safe_erase heap (kfree heap allocation.1) live allocation inv.safe pages direct descriptors⟩
  · refine core_frame base heap _ inv.core lists emerg (fun address above below => ?_) (fun j small => ?_)
    · exact kfree_word heap allocation.1 address (by rw [size]; omega)
    · exact kfree_count heap allocation.1 _ (by rw [initPage, size]; omega)
  · by_cases here : allocation.1 / pageSize * pageSize = chunkPage base order
    · exact chunks_free_here base heap live allocation order aligned inv member low here guard
    · exact chunks_free_elsewhere base heap live allocation order aligned inv member low here
  · exact mapped ▸ inv.placed other (List.mem_of_mem_erase otherMember)
  · dsimp only
    rw [pages, mapped]
    exact inv.pages

end

end Kraftwerk.Malloc
