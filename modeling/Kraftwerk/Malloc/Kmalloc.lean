import Kraftwerk.Malloc.Invariant

set_option autoImplicit false

namespace Kraftwerk.Malloc

-- What a call leaves as it is when it works on pages of allocate_kern only.
structure SameStatic (base : Nat) (heap later : Heap) : Prop where
  words : ∀ address, base ≤ address → address < base + 262144 → later.word address = heap.word address
  sizes : ∀ page, base ≤ page → page < base + 262144 → later.chunkSize page = heap.chunkSize page
  counts : ∀ page, base ≤ page → page < base + 262144 → later.nAllocations page = heap.nAllocations page
  mallocPages : later.mallocPages = heap.mallocPages
  emergPages : later.emergPages = heap.emergPages
  direct : later.direct = heap.direct
  descriptors : later.descriptors = heap.descriptors

theorem inv_static (base : Nat) (heap later : Heap) (live : List (Nat × Nat)) (inv : Inv base ⟨heap, live⟩)
    (same : SameStatic base heap later) (grows : ∀ run ∈ heap.mapped, run ∈ later.mapped)
    (runs : ∀ run ∈ later.mapped, run.1 % pageSize = 0 ∧ run.2 % pageSize = 0 ∧
      (run.1 + run.2 ≤ base ∨ base + 262144 ≤ run.1) ∧ 0 < run.2)
    (pages : ∀ page ∈ later.pages, page ∈ heap.pages ∨
      ((∃ run ∈ later.mapped, run.1 = page) ∧ ∀ allocation ∈ live, Apart allocation.1 allocation.2 page 48)) :
    Inv base ⟨later, live⟩ := by
  have size : pageSize = 4096 := rfl
  refine ⟨?_, fun order low => ?_, fun allocation member => ?_, runs, same.direct ▸ inv.direct, fun page member => ?_, ?_⟩
  · refine core_frame base heap later inv.core same.mallocPages same.emergPages (fun address above below => ?_) (fun j small => ?_)
    · exact same.words address above (by omega)
    · exact same.counts _ (by rw [initPage]; omega) (by rw [initPage, size]; omega)
  · have page := chunk_page_eq base order
    obtain ⟨atLeast, _, few, _, _⟩ := chunk_sizes order low
    have users : (System.mk later live).users base order = (System.mk heap live).users base order := by
      rw [System.users, System.users, same.descriptors]
      rfl
    rw [users]
    refine chunks_frame heap later _ order _ _ (fun word small => ?_) ?_ ?_ few atLeast (inv.chunks order low)
    · exact same.words _ (by omega) (by omega)
    · exact same.sizes _ (by omega) (by omega)
    · exact same.counts _ (by omega) (by omega)
  · rcases inv.placed allocation member with chunk | ⟨run, runMember, inside⟩
    · exact Or.inl chunk
    · exact Or.inr ⟨run, grows run runMember, inside⟩
  · rcases pages page member with old | ⟨⟨run, runMember, begins⟩, _⟩
    · refine ⟨(inv.pages page old).1, ?_⟩
      rcases (inv.pages page old).2 with inStatic | ⟨run, runMember, begins⟩
      · exact Or.inl inStatic
      · exact Or.inr ⟨run, grows run runMember, begins⟩
    · exact ⟨begins ▸ (runs run runMember).1, Or.inr ⟨run, runMember, begins⟩⟩
  · refine ⟨inv.safe.ranges, fun allocation member page pageMember => ?_, fun allocation member descriptor descriptorMember => ?_⟩
    · rcases pages page pageMember with old | ⟨_, apart⟩
      · exact inv.safe.headers allocation member page old
      · exact apart allocation member
    · have old : descriptor ∈ later.direct ++ later.descriptors := descriptorMember
      rw [same.direct, same.descriptors] at old
      exact inv.safe.descriptors allocation member descriptor old

-- An allocation on pages of allocate_kern that hold no other one.
theorem inv_add (base : Nat) (heap : Heap) (live : List (Nat × Nat)) (run fresh : Nat × Nat) (inv : Inv base ⟨heap, live⟩)
    (member : run ∈ heap.mapped) (begins : run.1 ≤ fresh.1) (inside : fresh.1 < run.1 + run.2)
    (ends : fresh.1 + fresh.2 ≤ run.1 + run.2)
    (apartLive : ∀ other ∈ live, Apart fresh.1 fresh.2 other.1 other.2)
    (apartPages : ∀ page ∈ heap.pages, Apart fresh.1 fresh.2 page 48) : Inv base ⟨heap, fresh :: live⟩ := by
  have outside := (inv.runs run member).2.2.1
  refine ⟨inv.core, fun order low => ?_, fun allocation isMember => ?_, inv.runs, inv.direct, inv.pages, ?_⟩
  · have page := chunk_page_eq base order
    have off : ¬ onPage (chunkPage base order) fresh = true := by
      rw [on_page_iff, pageSize]
      omega
    rw [users_cons base order heap heap live fresh rfl, if_neg off]
    exact inv.chunks order low
  · rcases List.mem_cons.mp isMember with rfl | isMember
    · exact Or.inr ⟨run, member, begins, inside, ends⟩
    · exact inv.placed allocation isMember
  · refine safe_cons heap heap live fresh inv.safe rfl rfl rfl apartLive apartPages (fun descriptor listed => ?_)
    rw [Apart]
    rcases List.mem_append.mp listed with direct | chunk
    · have place := direct_place base ⟨heap, live⟩ inv descriptor direct
      omega
    · have place := user_inside base 0 descriptor ⟨heap, live⟩ inv (by decide) (List.mem_append_right _ chunk)
      have page := chunk_page_eq base 0
      have unit : chunkBytes 0 = 16 := rfl
      omega

-- Pages that allocate_kern hands out now hold no allocation and no header.
theorem fresh_apart (base pages address : Nat) (heap : Heap) (live : List (Nat × Nat)) (aligned : base % pageSize = 0)
    (fresh : FreshPages base heap.mapped address pages) (some : 1 ≤ pages) (inv : Inv base ⟨heap, live⟩) :
    (∀ allocation ∈ live, Apart address (pages * pageSize) allocation.1 allocation.2) ∧
      ∀ page ∈ heap.pages, Apart address (pages * pageSize) page 48 := by
  have size : pageSize = 4096 := rfl
  obtain ⟨freshAligned, _, static, others⟩ := fresh
  have positive : 0 < pages * pageSize := Nat.mul_pos some (by decide)
  rw [Apart] at static
  rw [size] at freshAligned aligned positive static
  constructor
  · intro allocation member
    rw [Apart, size]
    rcases inv.placed allocation member with ⟨order, low, on, short⟩ | ⟨run, runMember, begins, inside, ends⟩
    · have page := chunk_page_eq base order
      have used := user_inside base order allocation.1 ⟨heap, live⟩ inv low (mem_users ⟨heap, live⟩ base order allocation member on)
      omega
    · have apart := others run runMember
      rw [Apart, size] at apart
      omega
  · intro page member
    rw [Apart, size]
    obtain ⟨pageAligned, place⟩ := inv.pages page member
    rw [size] at pageAligned
    rcases place with ⟨above, below⟩ | ⟨run, runMember, begins⟩
    · omega
    · have apart := others run runMember
      obtain ⟨_, whole, _, some⟩ := inv.runs run runMember
      rw [Apart, size] at apart
      rw [size] at whole
      omega

theorem inv_describe (base slot pageData : Nat) (heap : Heap) (live : List (Nat × Nat)) (inv : Inv base ⟨heap, live⟩)
    (found : openSlot heap (chunkPage base 0) = some slot) :
    let address := chunkPage base 0 + slot * chunkBytes 0
    let marked := setSlot (heap.increment (chunkPage base 0)) (chunkPage base 0) slot
    Inv base ⟨({ marked with descriptors := address :: heap.descriptors } : Heap).setPageData address pageData, live⟩ := by
  obtain ⟨atLeast, _, few, card, inPage⟩ := chunk_sizes 0 (by decide)
  have chunks := inv.chunks 0 (by decide)
  have length := chunks_length heap _ 0 _ _ chunks
  obtain ⟨below, past, apartUsed⟩ := open_slot_apart base 0 slot ⟨heap, live⟩ inv (by decide) found
  have taken := chunks_take heap _ 0 _ slot _ (by omega) chunks found
  have core := take_core base 0 slot heap (by omega) inv.core
  have inside := inPage slot below
  have page := chunk_page_eq base 0
  have unit : chunkBytes 0 = 16 := rfl
  dsimp only
  generalize slot * chunkBytes 0 = start at *
  have written : ∀ address, address ≠ chunkPage base 0 + start →
      (({ setSlot (heap.increment (chunkPage base 0)) (chunkPage base 0) slot with
        descriptors := (chunkPage base 0 + start) :: heap.descriptors } : Heap).setPageData
        (chunkPage base 0 + start) pageData).word address =
      (setSlot (heap.increment (chunkPage base 0)) (chunkPage base 0) slot).word address :=
    fun address different => Function.update_of_ne different _ _
  refine ⟨?_, fun order low => ?_, inv.placed, inv.runs, inv.direct, inv.pages, inv.safe.ranges, inv.safe.headers,
    fun allocation member descriptor listed => ?_⟩
  · exact core_frame base _ _ core rfl rfl (fun address above below => written address (by omega)) (fun j small => rfl)
  · have otherPage := chunk_page_eq base order
    obtain ⟨otherLeast, _, otherFew, _, _⟩ := chunk_sizes order low
    refine chunks_frame (setSlot (heap.increment (chunkPage base 0)) (chunkPage base 0) slot) _ _ order _ _
      (fun word small => written _ (by omega)) rfl rfl otherFew otherLeast ?_
    by_cases first : order = 0
    · subst first
      rw [System.users, if_pos rfl] at taken ⊢
      exact chunks_perm _ _ 0 _ _ _ List.perm_middle.symm taken
    · have users := inv.chunks order low
      rw [System.users, if_neg first, if_neg first, List.append_nil] at users ⊢
      exact take_chunks base 0 order slot 0 heap _ (by omega) low first users
  · rcases List.mem_append.mp listed with known | chunk
    · exact inv.safe.descriptors allocation member descriptor (List.mem_append_left _ known)
    · rcases List.mem_cons.mp chunk with rfl | chunk
      · rw [Apart]
        rcases live_place base _ inv allocation member with ⟨order, low, used, short⟩ | outside
        · have apart := apartUsed order low allocation.1 used
          omega
        · omega
      · exact inv.safe.descriptors allocation member descriptor (List.mem_append_right _ chunk)

-- The ways that kmalloc takes, over any allocate_kern.
section
variable (allocateKern : (Heap → Nat → Nat → Option (Heap × Nat)) → Heap → Nat → Option (Heap × Nat))
variable (heap : Heap) (fuel bytes flags : Nat)

theorem kmalloc_from_large (large : 1024 < bytes) :
    kmallocFromWith allocateKern (fuel + 1) heap bytes flags =
      allocateKern (kmallocFromWith allocateKern fuel) heap (kernPages bytes) := by
  rw [kmallocFromWith, if_pos large]

theorem kmalloc_from_takes (chosenPage : Nat) (small : bytes ≤ 1024) (linked : chosenPage ≠ 0)
    (walk : firstPage heap (hasRoom (orderOf bytes)) addressCount (heap.mallocPages (orderOf bytes)) = some chosenPage) :
    kmallocFromWith allocateKern (fuel + 1) heap bytes flags = some (takeSlot heap chosenPage (orderOf bytes)) := by
  rw [kmallocFromWith, if_neg (Nat.not_lt_of_le small), walk, Option.bind_some, if_neg linked]

theorem kmalloc_from_prepares (small : bytes ≤ 1024) (ordinary : ¬ flags % 2 = 1)
    (walk : firstPage heap (hasRoom (orderOf bytes)) addressCount (heap.mallocPages (orderOf bytes)) = some 0) :
    kmallocFromWith allocateKern (fuel + 1) heap bytes flags =
      (mallocPrepareNewPageWith (allocateKern (kmallocFromWith allocateKern fuel)) heap (orderOf bytes)).map (fun new =>
        takeSlot new.1 new.2 (orderOf bytes)) := by
  rw [kmallocFromWith, if_neg (Nat.not_lt_of_le small), walk, Option.bind_some, if_pos rfl, if_neg ordinary]

theorem kmalloc_from_null (small : bytes ≤ 1024) (emergency : flags % 2 = 1) (empty : heap.emergPages = 0)
    (walk : firstPage heap (hasRoom (orderOf bytes)) addressCount (heap.mallocPages (orderOf bytes)) = some 0) :
    kmallocFromWith allocateKern (fuel + 1) heap bytes flags = some (heap, 0) := by
  obtain ⟨less, enough⟩ : ∃ less, addressCount = less + 1 := ⟨2 ^ 64 - 1, rfl⟩
  rw [kmallocFromWith, if_neg (Nat.not_lt_of_le small), walk, Option.bind_some, if_pos rfl, if_pos emergency, empty, enough,
    mallocEmergAllocWith, if_pos rfl]

end

theorem address_count_succ : ∃ fuel, addressCount = fuel + 1 + 1 := ⟨2 ^ 64 - 2, rfl⟩

section
variable (kern : List (Nat × Nat) → Nat → Nat) (heap : Heap) (bytes flags : Nat)

theorem kmalloc_large (large : 1024 < bytes) :
    kmalloc kern heap bytes flags = some (allocateKern kern heap (kernPages bytes)) := by
  obtain ⟨fuel, enough⟩ := address_count_succ
  rw [kmalloc, enough]
  exact kmalloc_from_large (fun _ => takesNoNode kern) heap (fuel + 1) bytes flags large

theorem kmalloc_takes (chosenPage : Nat) (small : bytes ≤ 1024) (linked : chosenPage ≠ 0)
    (walk : firstPage heap (hasRoom (orderOf bytes)) addressCount (heap.mallocPages (orderOf bytes)) = some chosenPage) :
    kmalloc kern heap bytes flags = some (takeSlot heap chosenPage (orderOf bytes)) := by
  obtain ⟨fuel, enough⟩ := address_count_succ
  rw [kmalloc, enough]
  exact kmalloc_from_takes (fun _ => takesNoNode kern) heap (fuel + 1) bytes flags chosenPage small linked walk

theorem kmalloc_prepares (small : bytes ≤ 1024) (ordinary : ¬ flags % 2 = 1)
    (walk : firstPage heap (hasRoom (orderOf bytes)) addressCount (heap.mallocPages (orderOf bytes)) = some 0) :
    kmalloc kern heap bytes flags =
      (mallocPrepareNewPage kern heap (orderOf bytes)).map (fun new => takeSlot new.1 new.2 (orderOf bytes)) := by
  obtain ⟨fuel, enough⟩ := address_count_succ
  rw [kmalloc, enough]
  exact kmalloc_from_prepares (fun _ => takesNoNode kern) heap (fuel + 1) bytes flags small ordinary walk

theorem kmalloc_emergency_null (small : bytes ≤ 1024) (emergency : flags % 2 = 1) (empty : heap.emergPages = 0)
    (walk : firstPage heap (hasRoom (orderOf bytes)) addressCount (heap.mallocPages (orderOf bytes)) = some 0) :
    kmalloc kern heap bytes flags = some (heap, 0) := by
  obtain ⟨fuel, enough⟩ := address_count_succ
  rw [kmalloc, enough]
  exact kmalloc_from_null (fun _ => takesNoNode kern) heap (fuel + 1) bytes flags small emergency empty walk

end

-- What a call leaves: its result among the allocations, unless it is NULL.
structure Served (base : Nat) (heap : Heap) (live : List (Nat × Nat)) (bytes : Nat) (mapped : List (Nat × Nat))
    (result : Heap × Nat) : Prop where
  inv : Inv base ⟨result.1, if result.2 = 0 then live else (result.2, bytes) :: live⟩
  nodes : result.1.nodes = heap.nodes
  mapped : result.1.mapped = mapped

theorem served_address (base : Nat) (heap : Heap) (live : List (Nat × Nat)) (bytes : Nat) (mapped : List (Nat × Nat))
    (result : Heap × Nat) (some : result.2 ≠ 0) (inv : Inv base ⟨result.1, (result.2, bytes) :: live⟩)
    (nodes : result.1.nodes = heap.nodes) (runs : result.1.mapped = mapped) : Served base heap live bytes mapped result :=
  ⟨by rwa [if_neg some], nodes, runs⟩

section
variable (base : Nat) (kern : List (Nat × Nat) → Nat → Nat) (heap : Heap) (live : List (Nat × Nat))

theorem pages_served (bytes flags : Nat) (aligned : base % pageSize = 0)
    (fresh : FreshPages base heap.mapped (kern heap.mapped (kernPages bytes)) (kernPages bytes)) (inv : Inv base ⟨heap, live⟩)
    (large : 1024 < bytes) (covers : SizeCovers bytes) :
    ∃ result, kmalloc kern heap bytes flags = some result ∧
      Served base heap live bytes ((kern heap.mapped (kernPages bytes), kernPages bytes * pageSize) :: heap.mapped) result := by
  rw [SizeCovers, if_pos large] at covers
  have some : 1 ≤ kernPages bytes := by
    by_contra none
    rw [Nat.lt_one_iff.mp (Nat.lt_of_not_le none), Nat.zero_mul] at covers
    omega
  obtain ⟨apartLive, apartPages⟩ := fresh_apart base (kernPages bytes) _ heap live aligned fresh some inv
  obtain ⟨freshAligned, positive, static, others⟩ := fresh
  have length : 0 < kernPages bytes * pageSize := Nat.mul_pos some (by decide)
  have whole : kernPages bytes * pageSize % pageSize = 0 := Nat.mul_mod_left _ _
  have mapped : Inv base ⟨(allocateKern kern heap (kernPages bytes)).1, live⟩ := by
    refine inv_static base heap _ live inv ⟨fun _ _ _ => rfl, fun _ _ _ => rfl, fun _ _ _ => rfl, rfl, rfl, rfl, rfl⟩
      (fun run member => List.mem_cons_of_mem _ member) (fun run member => ?_) (fun page member => Or.inl member)
    rcases List.mem_cons.mp member with rfl | member
    · rw [Apart] at static
      exact ⟨freshAligned, whole, by dsimp only; omega, length⟩
    · exact inv.runs run member
  have address : (allocateKern kern heap (kernPages bytes)).2 = kern heap.mapped (kernPages bytes) := rfl
  refine ⟨_, kmalloc_large kern heap bytes flags large, served_address base heap live bytes _ _ positive.ne' ?_ rfl rfl⟩
  refine inv_add base _ live (kern heap.mapped (kernPages bytes), kernPages bytes * pageSize) _ mapped List.mem_cons_self
    (Nat.le_refl _) (by dsimp only; omega) (by dsimp only; omega) (fun other member => ?_) (fun page member => ?_)
  · have apart := apartLive other member
    rw [Apart] at apart ⊢
    dsimp only
    omega
  · have apart := apartPages page member
    rw [Apart] at apart ⊢
    dsimp only
    omega

theorem order_small (bytes : Nat) (small : bytes ≤ 1024) : orderOf bytes ≤ 6 := by
  have log : Nat.log2 bytes ≤ 10 := by
    by_cases zero : bytes = 0
    · subst zero
      decide
    · exact Nat.le_of_lt_succ ((Nat.log2_lt zero).mpr (by omega))
  rw [orderOf]
  omega

theorem chosen_page (order : Nat) (inv : Inv base ⟨heap, live⟩) (low : order < 2) :
    firstPage heap (hasRoom order) addressCount (heap.mallocPages order) = some (initDescriptor base (30 + order)) ∧
      heap.pageData (initDescriptor base (30 + order)) = chunkPage base order := by
  have chunks := inv.chunks order low
  obtain ⟨_, _, _, card, _⟩ := chunk_sizes order low
  have length := chunks_length heap _ _ _ _ chunks
  have head : heap.mallocPages order = initDescriptor base (30 + order) := by
    rw [inv.core.lists]
    interval_cases order <;> rfl
  have data : heap.pageData (initDescriptor base (30 + order)) = chunkPage base order := inv.core.data _ (by omega)
  have place := init_descriptor_cases base (30 + order)
  refine ⟨?_, data⟩
  rw [head]
  refine first_page_head heap _ _ (by omega) ?_
  have count : heap.nAllocations (chunkPage base order) = _ := chunks.count
  rw [data, hasRoom, count]
  exact decide_eq_true (by omega)

theorem kmalloc_chunk (allocateKern : (Heap → Nat → Nat → Option (Heap × Nat)) → Heap → Nat → Option (Heap × Nat))
    (fuel bytes flags slot : Nat) (inv : Inv base ⟨heap, live⟩) (small : bytes ≤ 1024) (low : orderOf bytes < 2)
    (found : openSlot heap (chunkPage base (orderOf bytes)) = some slot) :
    kmallocFromWith allocateKern (fuel + 1) heap bytes flags =
      some (setSlot (heap.increment (chunkPage base (orderOf bytes))) (chunkPage base (orderOf bytes)) slot,
        chunkPage base (orderOf bytes) + slot * chunkBytes (orderOf bytes)) := by
  have place := init_descriptor_cases base (30 + orderOf bytes)
  have scan : openSlot (heap.increment (chunkPage base (orderOf bytes))) (chunkPage base (orderOf bytes)) = some slot := found
  obtain ⟨walk, data⟩ := chosen_page base heap live (orderOf bytes) inv low
  rw [kmalloc_from_takes allocateKern heap fuel bytes flags _ small (by omega) walk, takeSlot, data,
    mark_open_slot _ _ slot scan, chunk_address_eq]

theorem list_free_slot (order : Nat) (inv : Inv base ⟨heap, live⟩) (low : order < 2) (free : ListFree heap order) :
    ∃ slot, openSlot heap (chunkPage base order) = some slot ∧ slot ∉ describedSlots order := by
  have place := init_descriptor_cases base (30 + order)
  obtain ⟨walk, data⟩ := chosen_page base heap live order inv low
  obtain ⟨slot, found, clear⟩ := free _ walk (by omega)
  exact ⟨slot, data ▸ found, clear⟩

theorem chunk_served (bytes slot : Nat) (aligned : base % pageSize = 0) (inv : Inv base ⟨heap, live⟩)
    (small : bytes ≤ 1024) (low : orderOf bytes < 2) (covers : SizeCovers bytes)
    (found : openSlot heap (chunkPage base (orderOf bytes)) = some slot) (clear : slot ∉ describedSlots (orderOf bytes)) :
    Served base heap live bytes heap.mapped
      (setSlot (heap.increment (chunkPage base (orderOf bytes))) (chunkPage base (orderOf bytes)) slot,
        chunkPage base (orderOf bytes) + slot * chunkBytes (orderOf bytes)) := by
  rw [SizeCovers, if_neg (Nat.not_lt_of_le small)] at covers
  have page := chunk_page_eq base (orderOf bytes)
  refine served_address base heap live bytes _ _ (by dsimp only; omega) ?_ rfl rfl
  exact inv_take base (orderOf bytes) slot bytes heap live aligned inv low covers found clear

theorem large_order (order : Nat) (low : order < 7) : slotCount order ≤ 256 ∧ slotCount order * chunkBytes order = 4096 := by
  have all : ∀ order < 7, slotCount order ≤ 256 ∧ slotCount order * chunkBytes order = 4096 := by decide
  exact all order low

theorem counted (inv : Inv base ⟨heap, live⟩) :
    32 ≤ heap.nAllocations (initPage base 30) ∧ heap.nAllocations (initPage base 30) < 252 := by
  have chunks := inv.chunks 0 (by decide)
  have length := chunks_length heap _ 0 _ _ chunks
  have card : (lowSlots (slotCount 0)).card = 128 := by decide +kernel
  have count : heap.nAllocations (initPage base 30) = 32 + _ := chunks.count
  omega

-- The new page as malloc_prepare_new_page leaves it before it looks for a descriptor.
def preparedPage (order : Nat) : Heap :=
  let page := kern heap.mapped 1
  { (heap.setWord page (heap.word page ||| reservedBits order)).setChunkSize page order with
    mapped := (page, 1 * pageSize) :: heap.mapped, pages := page :: heap.pages }

theorem prepare_new_page_eq (order : Nat) :
    mallocPrepareNewPage kern heap order =
      if kern heap.mapped 1 = 0 then none
      else
        (if heap.mallocPages 0 = 0 then mallocAllocateDescriptorPage kern (preparedPage kern heap order)
          else mallocAllocateDescriptor kern (preparedPage kern heap order)).map (fun desc =>
            ((desc.1.setPageData desc.2 (kern heap.mapped 1)).setCount (kern heap.mapped 1) 0, desc.2)) := rfl

def describedPage (order slot : Nat) : Heap :=
  let prepared := preparedPage kern heap order
  let address := chunkPage base 0 + slot * chunkBytes 0
  ({ setSlot (prepared.increment (chunkPage base 0)) (chunkPage base 0) slot with
    descriptors := address :: prepared.descriptors } : Heap).setPageData address (kern heap.mapped 1)

theorem inv_prepared (order : Nat) (aligned : base % pageSize = 0)
    (fresh : FreshPages base heap.mapped (kern heap.mapped 1) 1) (inv : Inv base ⟨heap, live⟩) :
    Inv base ⟨preparedPage kern heap order, live⟩ := by
  obtain ⟨apartLive, apartPages⟩ := fresh_apart base 1 _ heap live aligned fresh (Nat.le_refl 1) inv
  obtain ⟨freshAligned, positive, static, others⟩ := fresh
  have size : pageSize = 4096 := rfl
  rw [Apart, size] at static
  have outside : ∀ address, base ≤ address → address < base + 262144 → address ≠ kern heap.mapped 1 := by
    intro address above below
    omega
  refine inv_static base heap _ live inv ⟨fun address above below => ?_, fun page above below => ?_, fun _ _ _ => rfl, rfl, rfl, rfl,
    rfl⟩ (fun run member => List.mem_cons_of_mem _ member) (fun run member => ?_) (fun page member => ?_)
  · exact Function.update_of_ne (outside address above below) _ _
  · exact Function.update_of_ne (outside page above below) _ _
  · rcases List.mem_cons.mp member with rfl | member
    · rw [size] at freshAligned ⊢
      exact ⟨freshAligned, Nat.mul_mod_left 1 4096, by dsimp only; omega, Nat.mul_pos Nat.one_pos (by decide)⟩
    · exact inv.runs run member
  · rcases List.mem_cons.mp member with rfl | member
    · refine Or.inr ⟨⟨_, List.mem_cons_self, rfl⟩, fun allocation isLive => ?_⟩
      have apart := apartLive allocation isLive
      rw [Apart, size] at apart
      rw [Apart]
      omega
    · exact Or.inl member

theorem prepare_new_page (order slot : Nat) (aligned : base % pageSize = 0)
    (fresh : FreshPages base heap.mapped (kern heap.mapped 1) 1) (inv : Inv base ⟨heap, live⟩)
    (found : openSlot heap (chunkPage base 0) = some slot) :
    Inv base ⟨describedPage base kern heap order slot, live⟩ ∧
      mallocPrepareNewPage kern heap order = some ((describedPage base kern heap order slot).setCount (kern heap.mapped 1) 0,
        chunkPage base 0 + slot * chunkBytes 0) := by
  have prepared := inv_prepared base kern heap live order aligned fresh inv
  have chunks := inv.chunks 0 (by decide)
  obtain ⟨_, positive, static, _⟩ := fresh
  have size : pageSize = 4096 := rfl
  rw [Apart, size] at static
  have page := chunk_page_eq base 0
  have scan : openSlot (preparedPage kern heap order) (chunkPage base 0) = some slot := by
    rw [← found]
    refine open_slot_congr heap _ _ ?_ ?_ (fun word small => ?_)
    · exact Function.update_of_ne (by omega) _ _
    · have order : heap.chunkSize (chunkPage base 0) = 0 := chunks.size
      rw [order]
      decide
    · exact Function.update_of_ne (by omega) _ _
  refine ⟨inv_describe base slot (kern heap.mapped 1) (preparedPage kern heap order) live prepared scan, ?_⟩
  obtain ⟨atLeast, below⟩ := counted base (preparedPage kern heap order) live prepared
  have fullest := fullest_page_core base (preparedPage kern heap order) prepared.core atLeast below
  have head : (preparedPage kern heap order).mallocPages 0 = initDescriptor base 30 := prepared.core.lists 0
  have data : (preparedPage kern heap order).pageData (initDescriptor base 30) = chunkPage base 0 :=
    prepared.core.data 30 (by decide)
  have place := init_descriptor_cases base 30
  have drawn : mallocAllocateDescriptor kern (preparedPage kern heap order) =
      some ({ setSlot ((preparedPage kern heap order).increment (chunkPage base 0)) (chunkPage base 0) slot with
        descriptors := (chunkPage base 0 + slot * chunkBytes 0) :: (preparedPage kern heap order).descriptors },
        chunkPage base 0 + slot * chunkBytes 0) := by
    rw [descriptor_eq, fullest, Option.bind_some, if_neg (by omega), data]
    dsimp only
    rw [mark_open_slot _ _ slot scan, chunk_address_eq]
    rfl
  rw [prepare_new_page_eq, if_neg positive.ne', show heap.mallocPages 0 = initDescriptor base 30 from head, if_neg (by omega), drawn]
  rfl

theorem described_word (order slot address : Nat) (small : slot < 256)
    (outside : address < chunkPage base 0 ∨ chunkPage base 0 + 4096 ≤ address)
    (inPage : slot * chunkBytes 0 + chunkBytes 0 ≤ 4096) :
    (describedPage base kern heap order slot).word address =
      (mallocPreparePghdr heap (kern heap.mapped 1) order).word address := by
  have unit : chunkBytes 0 = 16 := rfl
  refine (Function.update_of_ne (by omega) _ _).trans ?_
  exact take_word (preparedPage kern heap order) (chunkPage base 0) slot address small (by omega)

theorem described_data (order slot : Nat) :
    ((describedPage base kern heap order slot).setCount (kern heap.mapped 1) 0).pageData
      (chunkPage base 0 + slot * chunkBytes 0) = kern heap.mapped 1 := by
  rw [Heap.pageData, set_count_word, describedPage]
  dsimp only
  rw [Heap.setPageData, set_word_word, if_pos rfl]

-- The slot found on the new page is not the first one, which its header takes.
theorem fresh_slot_positive (page order slot : Nat)
    (found : openSlot (mallocPreparePghdr heap page order) page = some slot) : 0 < slot := by
  rcases Nat.eq_zero_or_pos slot with rfl | positive
  · have isOpenSlot := ((open_slot_eq_some_iff _ page 0).mp found).2.1
    have word : (mallocPreparePghdr heap page order).word (bitmapWord page 0) = heap.word page ||| reservedBits order :=
      Function.update_self _ _ _
    have bit : reservedBits order &&& slotMask 0 = 1 := by
      rw [reservedBits]
      split
      · rfl
      · split <;> rfl
    rw [isOpen, word, Nat.and_or_distrib_right, bit, beq_iff_eq] at isOpenSlot
    exact absurd (Nat.or_eq_zero_iff.mp isOpenSlot).2 Nat.one_ne_zero
  · exact positive

theorem fresh_slot_inside (page order slot : Nat) (high : 2 ≤ order) (low : order < 7)
    (found : openSlot (mallocPreparePghdr heap page order) page = some slot) :
    48 ≤ slot * chunkBytes order ∧ slot * chunkBytes order < 4096 ∧
      slot * chunkBytes order + chunkBytes order ≤ 4096 ∧ slot < 256 := by
  obtain ⟨few, whole⟩ := large_order order low
  have sizeIs : (mallocPreparePghdr heap page order).chunkSize page = order := Function.update_self _ _ _
  have below := ((open_slot_eq_some_iff _ page slot).mp found).1
  rw [sizeIs] at below
  have positive := fresh_slot_positive heap page order slot found
  have unit : 64 ≤ chunkBytes order := by
    rw [chunkBytes, Nat.shiftLeft_eq]
    exact Nat.mul_le_mul_left 16 (Nat.pow_le_pow_right (by decide) high : 2 ^ 2 ≤ 2 ^ order)
  have past : chunkBytes order ≤ slot * chunkBytes order := Nat.le_mul_of_pos_left _ positive
  have inside : slot * chunkBytes order + chunkBytes order ≤ slotCount order * chunkBytes order := by
    rw [← Nat.succ_mul]
    exact Nat.mul_le_mul_right _ below
  omega

def takenPage (order slot second : Nat) : Heap :=
  setSlot (((describedPage base kern heap order slot).setCount (kern heap.mapped 1) 0).increment (kern heap.mapped 1))
    (kern heap.mapped 1) second

theorem kmalloc_new_page (bytes flags slot second : Nat) (aligned : base % pageSize = 0)
    (fresh : FreshPages base heap.mapped (kern heap.mapped 1) 1) (inv : Inv base ⟨heap, live⟩) (small : bytes ≤ 1024)
    (high : 2 ≤ orderOf bytes) (normal : ¬ flags % 2 = 1)
    (found : openSlot heap (chunkPage base 0) = some slot)
    (secondFound : openSlot (mallocPreparePghdr heap (kern heap.mapped 1) (orderOf bytes)) (kern heap.mapped 1) = some second) :
    kmalloc kern heap bytes flags = some (takenPage base kern heap (orderOf bytes) slot second,
      kern heap.mapped 1 + second * chunkBytes (orderOf bytes)) := by
  obtain ⟨_, prepare⟩ := prepare_new_page base kern heap live (orderOf bytes) slot aligned fresh inv found
  obtain ⟨_, _, static, _⟩ := fresh
  have page := chunk_page_eq base 0
  rw [Apart, pageSize] at static
  obtain ⟨slotBelow, _, _⟩ := open_slot_apart base 0 slot ⟨heap, live⟩ inv (by decide) found
  have slotInside := (chunk_sizes 0 (by decide)).2.2.2.2 slot slotBelow
  have slots : slotCount 0 = 256 := rfl
  have order : (mallocPreparePghdr heap (kern heap.mapped 1) (orderOf bytes)).chunkSize (kern heap.mapped 1) = orderOf bytes :=
    Function.update_self _ _ _
  have scan : openSlot (((describedPage base kern heap (orderOf bytes) slot).setCount (kern heap.mapped 1) 0).increment
      (kern heap.mapped 1)) (kern heap.mapped 1) = some second := by
    rw [← secondFound]
    have few := (large_order (orderOf bytes) (Nat.lt_succ_of_le (order_small bytes small))).1
    refine open_slot_congr (mallocPreparePghdr heap (kern heap.mapped 1) (orderOf bytes)) _ _ rfl (by rw [order]; exact few)
      (fun word wordSmall => ?_)
    exact described_word base kern heap (orderOf bytes) slot _ (by omega) (by omega) slotInside
  have noList : heap.mallocPages (orderOf bytes) = 0 := by
    rw [inv.core.lists, if_neg (by omega), if_neg (by omega)]
  have walk : firstPage heap (hasRoom (orderOf bytes)) addressCount (heap.mallocPages (orderOf bytes)) = some 0 := by
    rw [noList, first_page_null]
  rw [kmalloc_prepares kern heap bytes flags small normal walk, prepare, Option.map_some, takeSlot]
  dsimp only
  rw [described_data, mark_open_slot _ _ second scan, chunk_address_eq, takenPage]

theorem new_page_served (bytes flags slot second : Nat) (aligned : base % pageSize = 0)
    (fresh : FreshPages base heap.mapped (kern heap.mapped 1) 1) (inv : Inv base ⟨heap, live⟩) (small : bytes ≤ 1024)
    (high : 2 ≤ orderOf bytes) (covers : SizeCovers bytes) (normal : ¬ flags % 2 = 1)
    (found : openSlot heap (chunkPage base 0) = some slot)
    (secondFound : openSlot (mallocPreparePghdr heap (kern heap.mapped 1) (orderOf bytes)) (kern heap.mapped 1) = some second) :
    ∃ result, kmalloc kern heap bytes flags = some result ∧
      Served base heap live bytes ((kern heap.mapped 1, 1 * pageSize) :: heap.mapped) result := by
  obtain ⟨described, _⟩ := prepare_new_page base kern heap live (orderOf bytes) slot aligned fresh inv found
  have taken := kmalloc_new_page base kern heap live bytes flags slot second aligned fresh inv small high normal found secondFound
  obtain ⟨apartLive, apartPages⟩ := fresh_apart base 1 _ heap live aligned fresh (Nat.le_refl 1) inv
  obtain ⟨_, positive, static, _⟩ := fresh
  obtain ⟨past, within, inside, secondSmall⟩ := fresh_slot_inside heap (kern heap.mapped 1) (orderOf bytes) second high
    (Nat.lt_succ_of_le (order_small bytes small)) secondFound
  have size : pageSize = 4096 := rfl
  rw [Apart, size] at static
  rw [SizeCovers, if_neg (Nat.not_lt_of_le small)] at covers
  have whole : Inv base ⟨takenPage base kern heap (orderOf bytes) slot second, live⟩ := by
    refine inv_static base (describedPage base kern heap (orderOf bytes) slot) _ live described
      ⟨fun address above below => ?_, fun _ _ _ => rfl, fun other above below => ?_, rfl, rfl, rfl, rfl⟩
      (fun run member => member) described.runs (fun other member => Or.inl member)
    · refine Function.update_of_ne ?_ _ _
      rw [bitmapWord]
      omega
    · have different : other ≠ kern heap.mapped 1 := by omega
      exact (Function.update_of_ne different _ _).trans (Function.update_of_ne different _ _)
  refine ⟨_, taken, served_address base heap live bytes _ _ (by dsimp only; omega) ?_ rfl rfl⟩
  refine inv_add base _ live (kern heap.mapped 1, 1 * pageSize) _ whole List.mem_cons_self (by dsimp only; omega)
    (by dsimp only; omega) (by dsimp only; omega) (fun other member => ?_) (fun header member => ?_)
  · have apart := apartLive other member
    rw [Apart, size] at apart
    rw [Apart]
    dsimp only
    omega
  · rw [Apart]
    dsimp only
    rcases List.mem_cons.mp member with rfl | member
    · omega
    · have apart := apartPages header member
      rw [Apart, size] at apart
      omega

end

end Kraftwerk.Malloc
