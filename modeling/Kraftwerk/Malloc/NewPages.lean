import Kraftwerk.Malloc.KfreeExact

set_option autoImplicit false

-- The pages that kmalloc obtains for an order, and the list that it looks for room on.
namespace Kraftwerk.Malloc

def SameLists (heap later : Heap) : Prop := later.mallocPages = heap.mallocPages ∧ later.emergPages = heap.emergPages

theorem same_lists_refl (heap : Heap) : SameLists heap heap := ⟨rfl, rfl⟩

theorem same_lists_trans (heap between later : Heap) (first : SameLists heap between) (second : SameLists between later) :
    SameLists heap later :=
  ⟨second.1.trans first.1, second.2.trans first.2⟩

theorem mark_open_slot_lists (heap : Heap) (page : Nat) : SameLists heap (mallocMarkOpenSlot heap page).1 := by
  rw [mallocMarkOpenSlot]
  split
  · exact ⟨rfl, rfl⟩
  · exact same_lists_refl heap

theorem take_slot_lists (heap : Heap) (chosenPage order : Nat) : SameLists heap (takeSlot heap chosenPage order).1 :=
  mark_open_slot_lists (heap.increment (heap.pageData chosenPage)) (heap.pageData chosenPage)

section
variable (kern : List (Nat × Nat) → Nat → Nat)

theorem descriptor_page_lists (heap later : Heap) (desc : Nat)
    (done : mallocAllocateDescriptorPage kern heap = some (later, desc)) : SameLists heap later := by
  rw [mallocAllocateDescriptorPage, mallocAllocateDescriptorPageWith, takesNoNode, Option.bind_some] at done
  split at done
  · cases done
  · obtain ⟨rfl, _⟩ := Prod.mk.inj (Option.some.inj done)
    exact ⟨rfl, rfl⟩

theorem descriptor_lists (heap later : Heap) (desc : Nat) (done : mallocAllocateDescriptor kern heap = some (later, desc)) :
    SameLists heap later := by
  obtain ⟨maxPage, _, rest⟩ := Option.bind_eq_some_iff.mp done
  split at rest
  · exact descriptor_page_lists kern heap later desc rest
  · obtain ⟨rfl, _⟩ := Prod.mk.inj (Option.some.inj rest)
    exact mark_open_slot_lists heap (heap.pageData maxPage)

theorem new_page_lists (heap later : Heap) (order desc : Nat)
    (done : mallocPrepareNewPage kern heap order = some (later, desc)) : SameLists heap later := by
  rw [prepare_new_page_eq] at done
  split at done
  · cases done
  · obtain ⟨⟨described, address⟩, drawn, same⟩ := Option.map_eq_some_iff.mp done
    obtain ⟨rfl, _⟩ := Prod.mk.inj same
    split at drawn
    · exact descriptor_page_lists kern (preparedPage kern heap order) described address drawn
    · exact descriptor_lists kern (preparedPage kern heap order) described address drawn

-- kmalloc links no page, except that a request to the emergency store can grow that store.
theorem kmalloc_lists (heap later : Heap) (bytes flags address : Nat) (ordinary : flags % 2 = 0 ∨ heap.emergPages = 0)
    (done : kmalloc kern heap bytes flags = some (later, address)) : SameLists heap later := by
  obtain ⟨fuel, enough⟩ : ∃ fuel, addressCount = fuel + 1 := ⟨2 ^ 64 - 1, rfl⟩
  rw [kmalloc, enough, kmalloc_from_succ] at done
  split at done
  · obtain ⟨rfl, _⟩ := Prod.mk.inj (Option.some.inj done)
    exact ⟨rfl, rfl⟩
  obtain ⟨chosenPage, _, rest⟩ := Option.bind_eq_some_iff.mp done
  split at rest
  · split at rest
    · rename_i emergency
      have empty : heap.emergPages = 0 := ordinary.resolve_left (by omega)
      rw [enough, emerg_alloc_succ, if_pos empty] at rest
      obtain ⟨rfl, _⟩ := Prod.mk.inj (Option.some.inj rest)
      exact same_lists_refl heap
    · obtain ⟨⟨prepared, desc⟩, new, same⟩ := Option.map_eq_some_iff.mp rest
      obtain ⟨rfl, _⟩ := Prod.mk.inj same
      exact same_lists_trans heap prepared _ (new_page_lists kern heap prepared _ desc new) (take_slot_lists prepared desc (orderOf bytes))
  · obtain ⟨rfl, _⟩ := Prod.mk.inj (Option.some.inj rest)
    exact take_slot_lists heap chosenPage (orderOf bytes)

end

structure Request (order : Nat) where
  bytes : Nat
  flags : Nat
  small : bytes ≤ 1024
  chunk : orderOf bytes = order
  ordinary : flags % 2 = 0

-- The heap with the pages that malloc_prepare_new_page has got from allocate_kern so far.
structure Obtained where
  heap : Heap
  pages : List Nat

section
variable (kern : List (Nat × Nat) → Nat → Nat) (order : Nat)

def NeedsPage (heap : Heap) : Prop := firstPage heap (hasRoom order) addressCount (heap.mallocPages order) = some 0

instance (heap : Heap) : Decidable (NeedsPage order heap) := inferInstanceAs (Decidable (_ = _))

def requestChunk (state : Obtained) (request : Request order) : Option Obtained :=
  (kmalloc kern state.heap request.bytes request.flags).map (fun served =>
    ⟨served.1, if NeedsPage order state.heap then kern state.heap.mapped 1 :: state.pages else state.pages⟩)

def AllLinked (state : Obtained) : Prop :=
  ∀ page ∈ state.pages, ∃ descriptor, OnList state.heap (state.heap.mallocPages order) descriptor ∧
    state.heap.pageData descriptor = page

def TakesWhenFull (state : Obtained) (_request : Request order) : Prop :=
  NeedsPage order state.heap → ∀ page ∈ state.pages, ∀ slot < slotCount order, slotTaken state.heap page slot = true

theorem none_obtained (state : Obtained) (empty : state.pages = []) :
    AllLinked order state ∧ ∀ request, TakesWhenFull order state request := by
  refine ⟨fun page member => ?_, fun _ _ page member => ?_⟩
  · rw [empty] at member
    cases member
  · rw [empty] at member
    cases member

theorem on_list_null (heap : Heap) (descriptor : Nat) : ¬ OnList heap 0 descriptor := by
  intro listed
  induction listed with
  | head linked => exact linked rfl
  | next _ _ _ ih => exact ih

theorem needs_page_null (heap : Heap) (noList : heap.mallocPages order = 0) : NeedsPage order heap := by
  rw [NeedsPage, noList]
  exact first_page_null heap _

theorem request_chunk_lists (state next : Obtained) (request : Request order)
    (stepped : requestChunk kern order state request = some next) : SameLists state.heap next.heap ∧
      next.pages = if NeedsPage order state.heap then kern state.heap.mapped 1 :: state.pages else state.pages := by
  obtain ⟨⟨later, address⟩, served, rfl⟩ := Option.map_eq_some_iff.mp stepped
  exact ⟨kmalloc_lists kern state.heap later _ _ address (Or.inl request.ordinary) served, rfl⟩

-- No page is obtained where every walk finds room; where there is no list at all, the first
-- request that returns breaks the rule.
theorem obtained_pages_linked (heap : Heap) (requests : List (Request order)) :
    (Runs.Along (requestChunk kern order) (fun state _ => ¬ NeedsPage order state.heap) ⟨heap, []⟩ requests →
      Runs.Stays (requestChunk kern order) (AllLinked order) ⟨heap, []⟩ requests ∧
        Runs.Along (requestChunk kern order) (TakesWhenFull order) ⟨heap, []⟩ requests) ∧
    (heap.mallocPages order = 0 →
      ((Runs.Stays (requestChunk kern order) (AllLinked order) ⟨heap, []⟩ requests ∧
          Runs.Along (requestChunk kern order) (TakesWhenFull order) ⟨heap, []⟩ requests) ↔
        ∀ first ∈ requests.head?, requestChunk kern order ⟨heap, []⟩ first = none)) := by
  constructor
  · intro along
    have keeps : ∀ (state : Obtained) (request : Request order) (next : Obtained), state.pages = [] →
        ¬ NeedsPage order state.heap → requestChunk kern order state request = some next → next.pages = [] := by
      intro state request next empty found stepped
      rw [(request_chunk_lists kern order state next request stepped).2, if_neg found]
      exact empty
    constructor
    · exact Runs.stays_of_along _ _ (fun state => state.pages = []) _ keeps
        (fun state empty => (none_obtained order state empty).1) _ requests rfl along
    · exact Runs.along_of_invariant _ _ _ (fun state => state.pages = []) keeps
        (fun state request empty _ => (none_obtained order state empty).2 request) _ requests rfl along
  · intro noList
    obtain ⟨linked, takes⟩ := none_obtained order ⟨heap, []⟩ rfl
    cases requests with
    | nil => exact iff_of_true ⟨linked, trivial⟩ (fun first member => by cases member)
    | cons request rest =>
        constructor
        · rintro ⟨stays, _⟩ first member
          obtain rfl : request = first := Option.some.inj member
          cases stepped : requestChunk kern order ⟨heap, []⟩ request with
          | none => rfl
          | some next =>
              obtain ⟨lists, obtained⟩ := request_chunk_lists kern order _ next request stepped
              rw [if_pos (needs_page_null order heap noList)] at obtained
              have nextLinked := Runs.stays_start _ _ next rest (stays.2 next stepped)
              obtain ⟨descriptor, listed, _⟩ := nextLinked _ (obtained ▸ List.mem_cons_self)
              rw [lists.1, noList] at listed
              exact absurd listed (on_list_null next.heap descriptor)
        · intro hangs
          have none := hangs request rfl
          exact ⟨⟨linked, fun next stepped => by rw [none] at stepped; cases stepped⟩, takes request,
            fun next stepped => by rw [none] at stepped; cases stepped⟩

end

-- malloc_init gives the orders from 2 on no list, and their first request returns.
theorem stocked_request_returns (base order : Nat) (kern : List (Nat × Nat) → Nat → Nat) (heap : Heap)
    (request : Request order) (aligned : base % pageSize = 0) (fresh : FreshPages base heap.mapped (kern heap.mapped 1) 1)
    (stocked : Stocked base 32 heap) (high : 2 ≤ order) :
    heap.mallocPages order = 0 ∧ ∃ next, requestChunk kern order ⟨heap, []⟩ request = some next := by
  obtain ⟨bytes, flags, small, rfl, ordinary⟩ := request
  have noList : heap.mallocPages (orderOf bytes) = 0 := by
    rw [stocked.core.lists, if_neg (by omega), if_neg (by omega)]
  have inv := inv_stocked base heap aligned stocked
  have found := first_chunk base heap stocked
  obtain ⟨_, prepared⟩ := prepare_new_page base kern heap [] (orderOf bytes) 67 aligned fresh inv found
  refine ⟨noList, ?_⟩
  rw [requestChunk]
  dsimp only
  rw [kmalloc_prepares kern heap bytes flags small (by omega) (needs_page_null _ heap noList), prepared]
  exact ⟨_, rfl⟩

-- Slots 3 and 4 of the one listed page serve two requests.
theorem listed_page_stays :
    Runs.Stays (requestChunk (fun _ _ => 0) 0) (AllLinked 0) ⟨chunkPageHeap 7 0 0, []⟩
      [⟨16, 0, by decide, by decide, rfl⟩, ⟨24, 0, by decide, by decide, rfl⟩] := by
  have room : ∀ heap : Heap, heap.mallocPages 0 = 8192 → hasRoom 0 (heap.nAllocations (heap.pageData 8192)) = true →
      firstPage heap (hasRoom 0) addressCount (heap.mallocPages 0) = some 8192 ∧ ¬ NeedsPage 0 heap := by
    intro heap head isGood
    have walk := first_page_head heap (hasRoom 0) 8192 (by decide) isGood
    rw [NeedsPage, head, walk]
    exact ⟨rfl, by decide⟩
  obtain ⟨walk, now⟩ := room (chunkPageHeap 7 0 0) rfl (by decide)
  have first := kmalloc_takes (fun _ _ => 0) (chunkPageHeap 7 0 0) 16 0 8192 (by decide) (by decide) walk
  refine ((obtained_pages_linked (fun _ _ => 0) 0 (chunkPageHeap 7 0 0)
    [⟨16, 0, by decide, by decide, rfl⟩, ⟨24, 0, by decide, by decide, rfl⟩]).1 ⟨now, fun next stepped => ?_⟩).1
  obtain ⟨⟨later, address⟩, served, rfl⟩ := Option.map_eq_some_iff.mp stepped
  obtain ⟨rfl, rfl⟩ := Prod.mk.inj (Option.some.inj (first.symm.trans served))
  exact ⟨(room _ rfl (by decide)).2, fun _ _ => trivial⟩

theorem first_page_unlinked :
    ∃ heap, mallocInit 0x100000 (boot 0x100000 (fun _ => 0) (fun _ => 0) (fun _ => 0)) = some heap ∧
      ¬ Runs.Stays (requestChunk (allocateUp 0x100000) 2) (AllLinked 2) ⟨heap, []⟩ [⟨64, 0, by decide, by decide, rfl⟩] := by
  obtain ⟨heap, init, stocked⟩ := malloc_init_stocked 0x100000 (fun _ => 0) (fun _ => 0) (fun _ => 0)
  obtain ⟨noList, next, stepped⟩ := stocked_request_returns 0x100000 2 (allocateUp 0x100000) heap
    ⟨64, 0, by decide, by decide, rfl⟩ rfl (allocate_up_fresh 0x100000 1 heap.mapped) stocked (by decide)
  refine ⟨heap, init, fun stays => ?_⟩
  obtain ⟨lists, obtained⟩ := request_chunk_lists _ _ _ next _ stepped
  rw [if_pos (needs_page_null 2 heap noList)] at obtained
  obtain ⟨descriptor, listed, _⟩ := stays.2 next stepped _ (obtained ▸ List.mem_cons_self)
  rw [lists.1, noList] at listed
  exact on_list_null next.heap descriptor listed

end Kraftwerk.Malloc
