import Kraftwerk.Malloc.NewPages
import Kraftwerk.Lib.Chain

set_option autoImplicit false

-- When kmalloc comes back from its walks and from its calls of itself.
namespace Kraftwerk.Malloc

def countOf (heap : Heap) (descriptor : Nat) : Nat := heap.nAllocations (heap.pageData descriptor)

section
variable (heap : Heap)

-- What each walk finds, in terms of the nodes it passes.
theorem first_page_chain (good : Nat → Bool) (fuel head : Nat) (nodes : List Nat) (chain : Walk.Chain 0 heap.next head nodes)
    (enough : nodes.length < fuel) :
    firstPage heap good fuel head = some ((nodes.find? (fun node => good (countOf heap node))).getD 0) := by
  induction nodes generalizing head fuel with
  | nil =>
      obtain ⟨fuel, rfl⟩ := Nat.exists_eq_add_one.mpr (Nat.zero_lt_of_lt enough)
      have null : head = 0 := chain
      rw [firstPage, if_pos null]
      rfl
  | cons node rest ih =>
      obtain ⟨fuel, rfl⟩ := Nat.exists_eq_add_one.mpr (Nat.zero_lt_of_lt enough)
      obtain ⟨rfl, nonzero, later⟩ := chain
      rw [firstPage, if_neg nonzero, List.find?_cons]
      cases isGood : good (countOf heap head) with
      | true =>
          rw [countOf] at isGood
          rw [if_pos isGood]
          rfl
      | false =>
          rw [countOf] at isGood
          rw [if_neg (by simp [isGood])]
          exact ih fuel _ later (Nat.lt_of_succ_lt_succ enough)

-- The search for a descriptor stays at a page with 252 or more allocations.
theorem fullest_page_stuck (fuel head maxAlloc maxPage node : Nat) (nodes : List Nat) (chain : Walk.Chain 0 heap.next head nodes)
    (member : node ∈ nodes) (full : 252 ≤ countOf heap node) : fullestPage heap fuel head maxAlloc maxPage = none := by
  induction fuel generalizing head maxAlloc maxPage nodes with
  | zero => rfl
  | succ fuel ih =>
      cases nodes with
      | nil => cases member
      | cons first rest =>
          have whole := chain
          obtain ⟨rfl, nonzero, later⟩ := chain
          rw [fullestPage, if_neg nonzero]
          split
          · exact ih head maxAlloc maxPage (head :: rest) whole member
          · rename_i room
            have behind : node ∈ rest := by
              rcases List.mem_cons.mp member with rfl | behind
              · exact absurd full room
              · exact behind
            split
            · exact ih _ _ _ rest later behind
            · exact ih _ _ _ rest later behind

theorem fullest_page_listed (fuel head maxAlloc maxPage found : Nat) (nodes : List Nat) (chain : Walk.Chain 0 heap.next head nodes)
    (walk : fullestPage heap fuel head maxAlloc maxPage = some found) : found = maxPage ∨ found ∈ nodes := by
  induction fuel generalizing head maxAlloc maxPage nodes with
  | zero => cases walk
  | succ fuel ih =>
      rw [fullestPage] at walk
      cases nodes with
      | nil =>
          have null : head = 0 := chain
          rw [if_pos null] at walk
          exact Or.inl (Option.some.inj walk).symm
      | cons first rest =>
          have whole := chain
          obtain ⟨rfl, nonzero, later⟩ := chain
          rw [if_neg nonzero] at walk
          split at walk
          · exact ih head maxAlloc maxPage (head :: rest) whole walk
          split at walk
          · rcases ih _ _ head rest later walk with rfl | member
            · exact Or.inr List.mem_cons_self
            · exact Or.inr (List.mem_cons_of_mem _ member)
          · rcases ih _ maxAlloc maxPage rest later walk with same | member
            · exact Or.inl same
            · exact Or.inr (List.mem_cons_of_mem _ member)

-- Where no page is that full it ends, with NULL only where it starts with NULL and no page has more allocations.
theorem fullest_page_ends (fuel head maxAlloc maxPage : Nat) (nodes : List Nat) (chain : Walk.Chain 0 heap.next head nodes)
    (enough : nodes.length < fuel) (room : ∀ node ∈ nodes, countOf heap node < 252) :
    ∃ found, fullestPage heap fuel head maxAlloc maxPage = some found ∧
      (found = 0 ↔ maxPage = 0 ∧ ∀ node ∈ nodes, countOf heap node ≤ maxAlloc) := by
  induction nodes generalizing head fuel maxAlloc maxPage with
  | nil =>
      obtain ⟨fuel, rfl⟩ := Nat.exists_eq_add_one.mpr (Nat.zero_lt_of_lt enough)
      have null : head = 0 := chain
      rw [fullestPage, if_pos null]
      exact ⟨maxPage, rfl, (and_iff_left (List.forall_mem_nil _)).symm⟩
  | cons node rest ih =>
      obtain ⟨fuel, rfl⟩ := Nat.exists_eq_add_one.mpr (Nat.zero_lt_of_lt enough)
      obtain ⟨rfl, nonzero, later⟩ := chain
      obtain ⟨here, behind⟩ := List.forall_mem_cons.mp room
      have shorter := Nat.lt_of_succ_lt_succ enough
      rw [List.forall_mem_cons]
      rw [countOf] at here ⊢
      rw [fullestPage, if_neg nonzero, if_neg (Nat.not_le_of_lt here)]
      split
      · rename_i more
        obtain ⟨found, walk, none⟩ := ih fuel _ (heap.nAllocations (heap.pageData head)) head later shorter behind
        refine ⟨found, walk, ?_⟩
        rw [none]
        exact iff_of_false (fun null => nonzero null.1) (fun least => absurd least.2.1 (Nat.not_le_of_lt more))
      · rename_i least
        obtain ⟨found, walk, none⟩ := ih fuel _ maxAlloc maxPage later shorter behind
        refine ⟨found, walk, ?_⟩
        rw [none, and_iff_right (Nat.le_of_not_lt least)]

end

-- The lists of a heap state, each one finite.
structure Lists (heap : Heap) where
  pages : Nat → List Nat
  emerg : List Nat
  listed : ∀ order < 7, Walk.Chain 0 heap.next (heap.mallocPages order) (pages order)
  emergListed : Walk.Chain 0 heap.next heap.emergPages emerg
  addresses : ∀ order < 7, ∀ node ∈ pages order, node < 2 ^ 64 ∧ heap.pageData node ≠ 0
  emergAddresses : ∀ node ∈ emerg, node < 2 ^ 64 ∧ heap.pageData node ≠ 0

-- allocate_kern leaves the lists as they are.
def Lists.allocateKern (kern : List (Nat × Nat) → Nat → Nat) (heap : Heap) (lists : Lists heap) (pages : Nat) :
    Lists (allocateKern kern heap pages).1 :=
  ⟨lists.pages, lists.emerg, lists.listed, lists.emergListed, lists.addresses, lists.emergAddresses⟩

-- The emergency pages that malloc_emerg_alloc stops at.
def usable (heap : Heap) (order node : Nat) : Bool :=
  countOf heap node == 0 || (heap.chunkSize (heap.pageData node) == order && countOf heap node < slotCount order)

theorem usable_iff (heap : Heap) (order node : Nat) :
    usable heap order node = true ↔
      countOf heap node = 0 ∨ (heap.chunkSize (heap.pageData node) = order ∧ countOf heap node < slotCount order) := by
  simp [usable]

def repurposed (heap : Heap) (hdr order : Nat) : Heap :=
  if heap.nAllocations hdr = 0 then heap.setChunkSize hdr order else heap

@[simp] theorem repurposed_count (heap : Heap) (hdr order page : Nat) :
    (repurposed heap hdr order).nAllocations page = heap.nAllocations page := by
  rw [repurposed]
  split
  · rfl
  · rfl

theorem repurposed_size (heap : Heap) (order node : Nat) (found : usable heap order node = true) :
    (repurposed heap (heap.pageData node) order).chunkSize (heap.pageData node) = order := by
  rw [repurposed]
  split
  · exact Function.update_self _ _ _
  · rename_i used
    exact (((usable_iff heap order node).mp found).resolve_left used).1

section
variable (kern : List (Nat × Nat) → Nat → Nat)

def serveEmerg (kmalloc : Heap → Nat → Nat → Option (Heap × Nat)) (heap : Heap) (hdr order : Nat) : Option (Heap × Nat) :=
  (if heap.nAllocations hdr + 1 = slotCount (order + 1) then growEmerg kern kmalloc heap else some heap).map
    (fun heap => mallocDirectAlloc heap hdr)

-- The walk changes nothing before it comes to the page that serves the request.
theorem emerg_alloc_chain (kmalloc : Heap → Nat → Nat → Option (Heap × Nat)) (fuel head order : Nat) (heap : Heap)
    (nodes : List Nat) (chain : Walk.Chain 0 heap.next head nodes) (enough : nodes.length < fuel)
    (some : 0 < slotCount order) :
    mallocEmergAlloc kern kmalloc fuel heap head order =
      match nodes.find? (usable heap order) with
      | none => Option.some (heap, 0)
      | Option.some node =>
          serveEmerg kern kmalloc (repurposed heap (heap.pageData node) order) (heap.pageData node) order := by
  induction nodes generalizing head fuel with
  | nil =>
      obtain ⟨fuel, rfl⟩ := Nat.exists_eq_add_one.mpr (Nat.zero_lt_of_lt enough)
      have null : head = 0 := chain
      rw [emerg_alloc_succ, if_pos null]
      rfl
  | cons node rest ih =>
      obtain ⟨fuel, rfl⟩ := Nat.exists_eq_add_one.mpr (Nat.zero_lt_of_lt enough)
      obtain ⟨rfl, nonzero, later⟩ := chain
      rw [emerg_alloc_succ, if_neg nonzero, List.find?_cons]
      by_cases unused : heap.nAllocations (heap.pageData head) = 0
      · have found : usable heap order head = true := (usable_iff heap order head).mpr (Or.inl unused)
        have size : (heap.setChunkSize (heap.pageData head) order).chunkSize (heap.pageData head) = order :=
          Function.update_self _ _ _
        have count : (heap.setChunkSize (heap.pageData head) order).nAllocations (heap.pageData head) < slotCount order := by
          rw [show (heap.setChunkSize (heap.pageData head) order).nAllocations (heap.pageData head) = 0 from unused]
          exact some
        rw [found]
        dsimp only
        rw [repurposed, if_pos unused, if_pos ⟨size, count⟩, serveEmerg]
      · dsimp only
        rw [if_neg unused]
        by_cases good : heap.chunkSize (heap.pageData head) = order ∧ heap.nAllocations (heap.pageData head) < slotCount order
        · have found : usable heap order head = true := (usable_iff heap order head).mpr (Or.inr good)
          rw [found, if_pos good]
          dsimp only
          rw [repurposed, if_neg unused, serveEmerg]
        · have skipped : usable heap order head = false :=
            Bool.eq_false_iff.mpr (fun found => good (((usable_iff heap order head).mp found).resolve_left unused))
          rw [skipped, if_neg good]
          exact ih fuel _ later (Nat.lt_of_succ_lt_succ enough)

-- kmalloc for a chunk, by what the walk along the list of its order finds.
theorem kmalloc_from_chain (fuel bytes flags : Nat) (heap : Heap) (lists : Lists heap) (small : bytes ≤ 1024) :
    kmallocFrom kern (fuel + 1) heap bytes flags =
      match (lists.pages (orderOf bytes)).find? (fun node => hasRoom (orderOf bytes) (countOf heap node)) with
      | some node => some (takeSlot heap node (orderOf bytes))
      | none =>
          if flags % 2 = 1 then
            match lists.emerg.find? (usable heap (orderOf bytes)) with
            | none => some (heap, 0)
            | some node => serveEmerg kern (kmallocFrom kern fuel) (repurposed heap (heap.pageData node) (orderOf bytes))
                (heap.pageData node) (orderOf bytes)
          else (mallocPrepareNewPage kern heap (orderOf bytes)).map (fun new => takeSlot new.1 new.2 (orderOf bytes)) := by
  have order := Nat.lt_succ_of_le (order_small bytes small)
  have chain := lists.listed (orderOf bytes) order
  have enough : ∀ head nodes, Walk.Chain 0 heap.next head nodes → (∀ node ∈ nodes, node < 2 ^ 64 ∧ heap.pageData node ≠ 0) →
      nodes.length < addressCount := fun head nodes chain addresses =>
    Walk.chain_length heap.next head 64 nodes chain (fun node member => (addresses node member).1)
  have slots : 0 < slotCount (orderOf bytes) := by
    have all : ∀ order < 7, 0 < slotCount order := by decide
    exact all _ order
  rw [kmalloc_from_succ, if_neg (Nat.not_lt_of_le small),
    first_page_chain heap _ _ _ _ chain (enough _ _ chain (lists.addresses _ order)), Option.bind_some]
  cases found : (lists.pages (orderOf bytes)).find? (fun node => hasRoom (orderOf bytes) (countOf heap node)) with
  | some node =>
      have linked := Walk.chain_not_null 0 heap.next _ node _ chain (List.mem_of_find?_eq_some found)
      rw [Option.getD_some, if_neg linked]
  | none =>
      rw [Option.getD_none, if_pos rfl]
      dsimp only
      rw [emerg_alloc_chain kern _ _ _ _ heap _ lists.emergListed (enough _ _ lists.emergListed lists.emergAddresses) slots]

-- At the middle of an order-0 emergency page the request for a descriptor comes back to the
-- same page, and only what allocate_kern has handed out is different then.
theorem kmalloc_endless (heap : Heap) (lists : Lists heap) (node fuel : Nat)
    (full : (lists.pages 0).find? (fun node => hasRoom 0 (countOf heap node)) = none)
    (found : lists.emerg.find? (usable heap 0) = some node) (middle : countOf heap node + 1 = slotCount 1) :
    kmallocFrom kern fuel heap 16 1 = none := by
  induction fuel generalizing heap with
  | zero => rfl
  | succ fuel ih =>
      have used : heap.nAllocations (heap.pageData node) ≠ 0 := by
        rw [countOf, show slotCount 1 = 128 from rfl] at middle
        omega
      have again := ih _ (lists.allocateKern kern heap 1) full found middle
      have here : heap.nAllocations (heap.pageData node) + 1 = slotCount (0 + 1) := middle
      rw [kmalloc_from_chain kern fuel 16 1 heap lists (by decide), show orderOf 16 = 0 by decide, full]
      dsimp only
      rw [if_pos rfl, found]
      dsimp only
      rw [repurposed, if_neg used, serveEmerg, if_pos here, growEmerg, growEmergWith, takesNoNode, Option.bind_some]
      dsimp only
      rw [again]
      rfl

end

theorem mark_open_slot_positive (heap : Heap) (page : Nat) :
    (mallocMarkOpenSlot heap page).2 ≠ 0 ↔
      isOpen heap page 0 = false ∧ ∃ slot < slotCount (heap.chunkSize page), isOpen heap page slot = true := by
  cases found : openSlot heap page with
  | none =>
      rw [mallocMarkOpenSlot, found]
      refine iff_of_false (fun positive => positive rfl) ?_
      rintro ⟨_, slot, inside, wasOpen⟩
      exact List.find?_eq_none.mp found slot (List.mem_range.mpr inside) wasOpen
  | some slot =>
      obtain ⟨inside, wasOpen, first⟩ := (open_slot_eq_some_iff heap page slot).mp found
      rw [mark_open_slot heap page slot found]
      constructor
      · intro positive
        exact ⟨first 0 (Nat.pos_of_ne_zero positive), slot, inside, wasOpen⟩
      · rintro ⟨closed, _⟩ zero
        have same : slot = 0 := zero
        rw [same, closed] at wasOpen
        cases wasOpen

-- The request for the descriptor of another emergency page returns, and not with NULL.
def Refills (heap : Heap) (lists : Lists heap) : Prop :=
  (∃ node ∈ lists.pages 0, hasRoom 0 (countOf heap node) = true) ∨
    ∃ node, lists.emerg.find? (usable heap 0) = some node ∧ countOf heap node + 1 ≠ slotCount 1 ∧
      isOpen heap (heap.pageData node) 0 = false ∧ ∃ slot < slotCount 0, isOpen heap (heap.pageData node) slot = true

theorem take_slot_positive (heap : Heap) (node order : Nat) (data : heap.pageData node ≠ 0) : (takeSlot heap node order).2 ≠ 0 := by
  rw [takeSlot]
  dsimp only
  rw [chunk_address_eq]
  omega

theorem direct_alloc_positive (heap : Heap) (page : Nat) (nonzero : page ≠ 0) :
    (mallocDirectAlloc heap page).2 ≠ 0 ↔ (mallocMarkOpenSlot heap page).2 ≠ 0 := by
  rw [mallocDirectAlloc]
  split
  · rename_i none
    exact iff_of_false (fun some => some rfl) (fun some => some none)
  · rename_i some
    refine iff_of_true ?_ some
    dsimp only
    omega

theorem open_slot_repurposed (heap : Heap) (node : Nat) (found : usable heap 0 node = true) :
    (mallocMarkOpenSlot (repurposed heap (heap.pageData node) 0) (heap.pageData node)).2 ≠ 0 ↔
      isOpen heap (heap.pageData node) 0 = false ∧ ∃ slot < slotCount 0, isOpen heap (heap.pageData node) slot = true := by
  have words : ∀ slot, isOpen (repurposed heap (heap.pageData node) 0) (heap.pageData node) slot =
      isOpen heap (heap.pageData node) slot := by
    intro slot
    rw [repurposed]
    split
    · rfl
    · rfl
  rw [mark_open_slot_positive, repurposed_size heap 0 node found]
  simp only [words]

section
variable (kern : List (Nat × Nat) → Nat → Nat)

theorem grow_emerg_served (kmalloc : Heap → Nat → Nat → Option (Heap × Nat)) (heap : Heap) :
    growEmerg kern kmalloc heap ≠ none ↔
      kern heap.mapped 1 ≠ 0 ∧ ∃ later desc, kmalloc (allocateKern kern heap 1).1 16 1 = some (later, desc) ∧ desc ≠ 0 := by
  rw [growEmerg, growEmergWith, takesNoNode, Option.bind_some]
  dsimp only
  cases nested : kmalloc (allocateKern kern heap 1).1 16 1 with
  | none =>
      refine iff_of_false (fun grown => grown rfl) ?_
      rintro ⟨_, _, _, served, _⟩
      cases served
  | some served =>
      obtain ⟨later, desc⟩ := served
      rw [Option.bind_some]
      by_cases null : (later, desc).2 = 0 ∨ (allocateKern kern heap 1).2 = 0
      · rw [if_pos null]
        refine iff_of_false (fun grown => grown rfl) ?_
        rintro ⟨answers, _, other, same, nonzero⟩
        obtain ⟨_, rfl⟩ := Prod.mk.inj (Option.some.inj same)
        exact null.elim nonzero answers
      · rw [if_neg null]
        exact iff_of_true (Option.some_ne_none _) ⟨fun page => null (.inr page), later, desc, rfl, fun desc => null (.inl desc)⟩

-- The nested request with what its walks find in the heap as it was before.
theorem nested_request (heap : Heap) (lists : Lists heap) (fuel : Nat) :
    kmallocFrom kern (fuel + 1) (allocateKern kern heap 1).1 16 1 =
      match (lists.pages 0).find? (fun node => hasRoom 0 (countOf heap node)) with
      | some node => some (takeSlot (allocateKern kern heap 1).1 node 0)
      | none =>
          match lists.emerg.find? (usable heap 0) with
          | none => some ((allocateKern kern heap 1).1, 0)
          | some node => serveEmerg kern (kmallocFrom kern fuel)
              (repurposed (allocateKern kern heap 1).1 (heap.pageData node) 0) (heap.pageData node) 0 := by
  have nested := kmalloc_from_chain kern fuel 16 1 _ (lists.allocateKern kern heap 1) (by decide)
  rw [show orderOf 16 = 0 by decide, if_pos (by decide)] at nested
  exact nested

theorem grow_emerg_iff (heap : Heap) (lists : Lists heap) (fuel : Nat) :
    growEmerg kern (kmallocFrom kern (fuel + 1)) heap ≠ none ↔ kern heap.mapped 1 ≠ 0 ∧ Refills heap lists := by
  rw [grow_emerg_served kern _ heap, nested_request kern heap lists fuel]
  refine and_congr_right (fun _ => ?_)
  cases full : (lists.pages 0).find? (fun node => hasRoom 0 (countOf heap node)) with
  | some node =>
      have room := List.find?_some full
      have member := List.mem_of_find?_eq_some full
      have data := (lists.addresses 0 (by decide) node member).2
      exact iff_of_true ⟨_, _, rfl, take_slot_positive (allocateKern kern heap 1).1 node 0 data⟩ (Or.inl ⟨node, member, room⟩)
  | none =>
      have noRoom := List.find?_eq_none.mp full
      dsimp only
      cases found : lists.emerg.find? (usable heap 0) with
      | none =>
          refine iff_of_false ?_ ?_
          · rintro ⟨_, _, served, nonzero⟩
            exact nonzero (Prod.mk.inj (Option.some.inj served)).2.symm
          · rintro (⟨node, member, room⟩ | ⟨node, isFound, _⟩)
            · exact noRoom node member room
            · rw [found] at isFound
              cases isFound
      | some node =>
          dsimp only
          have data := (lists.emergAddresses node (List.mem_of_find?_eq_some found)).2
          have refills : Refills heap lists ↔ countOf heap node + 1 ≠ slotCount 1 ∧
              isOpen heap (heap.pageData node) 0 = false ∧ ∃ slot < slotCount 0, isOpen heap (heap.pageData node) slot = true := by
            constructor
            · rintro (⟨other, member, room⟩ | ⟨other, isFound, rest⟩)
              · exact absurd room (noRoom other member)
              · obtain rfl : node = other := Option.some.inj (found.symm.trans isFound)
                exact rest
            · exact fun rest => Or.inr ⟨node, found, rest⟩
          rw [refills]
          by_cases middle : countOf heap node + 1 = slotCount 1
          · have endless := kmalloc_endless kern _ (lists.allocateKern kern heap 1) node (fuel + 1) full found middle
            rw [nested_request kern heap lists fuel, full, found] at endless
            dsimp only at endless
            rw [endless]
            refine iff_of_false ?_ (fun rest => rest.1 middle)
            rintro ⟨_, _, served, _⟩
            cases served
          · have elsewhere : ¬ (allocateKern kern heap 1).1.nAllocations (heap.pageData node) + 1 = slotCount (0 + 1) := middle
            have slots := open_slot_repurposed (allocateKern kern heap 1).1 node (List.find?_some found)
            have positive := direct_alloc_positive (repurposed (allocateKern kern heap 1).1 (heap.pageData node) 0) _ data
            rw [serveEmerg, repurposed_count, if_neg elsewhere, Option.map_some]
            constructor
            · rintro ⟨later, desc, served, nonzero⟩
              rw [← (Prod.mk.inj (Option.some.inj served)).2] at nonzero
              exact ⟨middle, slots.mp (positive.mp nonzero)⟩
            · rintro ⟨_, openSlots⟩
              exact ⟨_, _, rfl, positive.mpr (slots.mpr openSlots)⟩

theorem prepared_page_descriptors (heap : Heap) (order : Nat) (nodes : List Nat)
    (apart : ∀ node ∈ nodes, Apart (kern heap.mapped 1) pageSize node 16) :
    ∀ node ∈ nodes, (preparedPage kern heap order).next node = heap.next node ∧
      countOf (preparedPage kern heap order) node = countOf heap node := by
  intro node member
  have outside := apart node member
  rw [Apart, pageSize] at outside
  have data : (preparedPage kern heap order).pageData node = heap.pageData node := Function.update_of_ne (by omega) _ _
  refine ⟨Function.update_of_ne (by omega) _ _, ?_⟩
  rw [countOf, data]
  rfl

-- A page is there to be prepared, the search for its descriptor does not meet a full page, and
-- where it finds no page in use there is another page for descriptors.
def Prepares (heap : Heap) (lists : Lists heap) : Prop :=
  kern heap.mapped 1 ≠ 0 ∧ (∀ node ∈ lists.pages 0, countOf heap node < 252) ∧
    ((∀ node ∈ lists.pages 0, countOf heap node = 0) → kern ((kern heap.mapped 1, 1 * pageSize) :: heap.mapped) 1 ≠ 0)

theorem descriptor_page_returns (heap : Heap) : mallocAllocateDescriptorPage kern heap ≠ none ↔ kern heap.mapped 1 ≠ 0 := by
  rw [mallocAllocateDescriptorPage, mallocAllocateDescriptorPageWith, takesNoNode, Option.bind_some]
  dsimp only
  by_cases null : (allocateKern kern heap 1).2 = 0
  · rw [if_pos null]
    exact iff_of_false (fun drawn => drawn rfl) (fun answers => answers null)
  · rw [if_neg null]
    exact iff_of_true (Option.some_ne_none _) null

theorem descriptor_returns (heap : Heap) (nodes : List Nat) (chain : Walk.Chain 0 heap.next (heap.mallocPages 0) nodes)
    (addresses : ∀ node ∈ nodes, node < 2 ^ 64) :
    mallocAllocateDescriptor kern heap ≠ none ↔ (∀ node ∈ nodes, countOf heap node < 252) ∧
      ((∀ node ∈ nodes, countOf heap node = 0) → kern heap.mapped 1 ≠ 0) := by
  have length := Walk.chain_length heap.next _ 64 nodes chain addresses
  rw [descriptor_eq]
  by_cases room : ∀ node ∈ nodes, countOf heap node < 252
  · obtain ⟨maxPage, found, none⟩ := fullest_page_ends heap addressCount (heap.mallocPages 0) 0 0 nodes chain length room
    simp only [Nat.le_zero, true_and] at none
    rw [found, Option.bind_some, and_iff_right room]
    by_cases unused : maxPage = 0
    · rw [if_pos unused, descriptor_page_returns]
      exact ⟨fun answers _ => answers, fun answers => answers (none.mp unused)⟩
    · rw [if_neg unused]
      exact iff_of_true (Option.some_ne_none _) (fun all => absurd (none.mpr all) unused)
  · obtain ⟨node, member, full⟩ : ∃ node ∈ nodes, 252 ≤ countOf heap node := by
      by_contra none
      exact room (fun node member => Nat.lt_of_not_le (fun full => none ⟨node, member, full⟩))
    rw [fullest_page_stuck heap addressCount (heap.mallocPages 0) 0 0 node nodes chain member full]
    exact iff_of_false (fun drawn => drawn rfl) (fun both => room both.1)

theorem prepare_new_page_returns (heap : Heap) (lists : Lists heap) (order : Nat)
    (apart : ∀ node ∈ lists.pages 0, Apart (kern heap.mapped 1) pageSize node 16) :
    mallocPrepareNewPage kern heap order ≠ none ↔ Prepares kern heap lists := by
  have chain := lists.listed 0 (by decide)
  have same := prepared_page_descriptors kern heap order (lists.pages 0) apart
  have preparedChain := Walk.chain_congr 0 heap.next (preparedPage kern heap order).next _ _ chain (fun node member => (same node member).1)
  have searched := descriptor_returns kern (preparedPage kern heap order) (lists.pages 0) preparedChain
    (fun node member => (lists.addresses 0 (by decide) node member).1)
  have few : (∀ node ∈ lists.pages 0, countOf (preparedPage kern heap order) node < 252) ↔
      ∀ node ∈ lists.pages 0, countOf heap node < 252 :=
    forall₂_congr (fun node member => by rw [(same node member).2])
  have unused : (∀ node ∈ lists.pages 0, countOf (preparedPage kern heap order) node = 0) ↔
      ∀ node ∈ lists.pages 0, countOf heap node = 0 :=
    forall₂_congr (fun node member => by rw [(same node member).2])
  rw [few, unused] at searched
  rw [prepare_new_page_eq, Prepares]
  by_cases answers : kern heap.mapped 1 = 0
  · rw [if_pos answers]
    exact iff_of_false (fun prepared => prepared rfl) (fun both => both.1 answers)
  · rw [if_neg answers, ne_eq, Option.map_eq_none_iff, and_iff_right answers]
    by_cases null : heap.mallocPages 0 = 0
    · have empty : lists.pages 0 = [] := Walk.chain_unique 0 heap.next _ _ [] chain null
      rw [if_pos null, empty]
      refine (descriptor_page_returns kern (preparedPage kern heap order)).trans ⟨fun page => ?_, fun both => ?_⟩
      · exact ⟨List.forall_mem_nil _, fun _ => page⟩
      · exact both.2 (List.forall_mem_nil _)
    · rw [if_neg null]
      exact searched

-- When a request for a chunk comes back, by the lists as they are when it is made.
def Returns (heap : Heap) (lists : Lists heap) (order flags : Nat) : Prop :=
  (∃ node ∈ lists.pages order, hasRoom order (countOf heap node) = true) ∨
    if flags % 2 = 1 then
      ∀ node, lists.emerg.find? (usable heap order) = some node → countOf heap node + 1 = slotCount (order + 1) →
        kern heap.mapped 1 ≠ 0 ∧ Refills heap lists
    else Prepares kern heap lists

theorem kmalloc_returns_iff (heap : Heap) (lists : Lists heap) (bytes flags : Nat) (small : bytes ≤ 1024)
    (apart : ∀ node ∈ lists.pages 0, Apart (kern heap.mapped 1) pageSize node 16) :
    kmalloc kern heap bytes flags ≠ none ↔ Returns kern heap lists (orderOf bytes) flags := by
  obtain ⟨fuel, enough⟩ : ∃ fuel, addressCount = fuel + 2 := ⟨2 ^ 64 - 2, rfl⟩
  have halves : ∀ order < 7, 2 ≤ slotCount (order + 1) := by decide
  have half := halves (orderOf bytes) (Nat.lt_succ_of_le (order_small bytes small))
  rw [kmalloc, enough, kmalloc_from_chain kern (fuel + 1) bytes flags heap lists small, Returns]
  cases full : (lists.pages (orderOf bytes)).find? (fun node => hasRoom (orderOf bytes) (countOf heap node)) with
  | some node =>
      have room := List.find?_some full
      exact iff_of_true (Option.some_ne_none _) (Or.inl ⟨node, List.mem_of_find?_eq_some full, room⟩)
  | none =>
      have noRoom : ¬ ∃ node ∈ lists.pages (orderOf bytes), hasRoom (orderOf bytes) (countOf heap node) = true := by
        rintro ⟨node, member, room⟩
        exact List.find?_eq_none.mp full node member room
      dsimp only
      rw [or_iff_right noRoom]
      by_cases emergency : flags % 2 = 1
      · rw [if_pos emergency, if_pos emergency]
        cases found : lists.emerg.find? (usable heap (orderOf bytes)) with
        | none => exact iff_of_true (Option.some_ne_none _) (fun node isFound => by cases isFound)
        | some node =>
            dsimp only
            rw [serveEmerg, ne_eq, Option.map_eq_none_iff]
            by_cases middle : countOf heap node + 1 = slotCount (orderOf bytes + 1)
            · have used : heap.nAllocations (heap.pageData node) ≠ 0 := by
                rw [countOf] at middle
                omega
              have here : heap.nAllocations (heap.pageData node) + 1 = slotCount (orderOf bytes + 1) := middle
              rw [repurposed, if_neg used, if_pos here]
              refine (grow_emerg_iff kern heap lists fuel).trans ⟨fun refills _ _ _ => refills, fun refills => ?_⟩
              exact refills node rfl middle
            · have elsewhere : ¬ heap.nAllocations (heap.pageData node) + 1 = slotCount (orderOf bytes + 1) := middle
              rw [repurposed_count, if_neg elsewhere]
              refine iff_of_true (Option.some_ne_none _) (fun other isFound otherMiddle => absurd otherMiddle ?_)
              obtain rfl : node = other := Option.some.inj isFound
              exact middle
      · rw [if_neg emergency, if_neg emergency, ne_eq, Option.map_eq_none_iff]
        exact prepare_new_page_returns kern heap lists (orderOf bytes) apart

end

def oneList (first count : Nat) : Lists (chunkPageHeap first 0 count) where
  pages := fun _ => [8192]
  emerg := []
  listed := fun _ _ => ⟨rfl, by decide, rfl⟩
  emergListed := rfl
  addresses := fun _ _ node member => by
    obtain rfl := List.mem_singleton.mp member
    rw [show (chunkPageHeap first 0 count).pageData 8192 = 4096 from rfl]
    decide
  emergAddresses := List.forall_mem_nil _

theorem kmalloc_returns_room : kmalloc (fun _ _ => 65536) (chunkPageHeap 7 0 0) 16 0 ≠ none := by
  refine (kmalloc_returns_iff (fun _ _ => 65536) (chunkPageHeap 7 0 0) (oneList 7 0) 16 0 (by decide)
    (fun node member => ?_)).mpr (Or.inl ⟨8192, List.mem_singleton_self _, by decide⟩)
  obtain rfl := List.mem_singleton.mp member
  exact Or.inr (Or.inr (Or.inr (by decide)))

-- The only page with 16-byte chunks in the emergency store, at the middle of its chunks.
def emergHeap : Heap := { chunkPageHeap (2 ^ 64 - 1) 0 127 with mallocPages := fun _ => 0, emergPages := 8192 }

def emergLists : Lists emergHeap where
  pages := fun _ => []
  emerg := [8192]
  listed := fun _ _ => rfl
  emergListed := ⟨rfl, by decide, rfl⟩
  addresses := fun _ _ => List.forall_mem_nil _
  emergAddresses := fun node member => by
    obtain rfl := List.mem_singleton.mp member
    decide

-- A full page keeps the search for a descriptor at it, and the emergency store keeps calling kmalloc.
theorem kmalloc_never_returns :
    kmalloc (fun _ _ => 65536) (chunkPageHeap (2 ^ 64 - 1) 0 255) 16 0 = none ∧ kmalloc (fun _ _ => 65536) emergHeap 16 1 = none := by
  have half : emergLists.emerg.find? (usable emergHeap 0) = some 8192 := by decide
  constructor
  · have walk := first_page_chain (chunkPageHeap (2 ^ 64 - 1) 0 255) (hasRoom 0) addressCount 8192 [8192] ⟨rfl, by decide, rfl⟩
      (by decide)
    have stuck := prepare_new_page_returns (fun _ _ => 65536) (chunkPageHeap (2 ^ 64 - 1) 0 255) (oneList (2 ^ 64 - 1) 255) 0
      (fun node member => by
        obtain rfl := List.mem_singleton.mp member
        exact Or.inr (Or.inr (Or.inr (by decide))))
    rw [kmalloc_prepares _ _ 16 0 (by decide) (by decide) walk, Option.map_eq_none_iff]
    by_contra returns
    exact absurd ((stuck.mp returns).2.1 8192 (List.mem_singleton_self _)) (by decide)
  · exact kmalloc_endless _ emergHeap emergLists 8192 addressCount rfl half rfl

end Kraftwerk.Malloc
