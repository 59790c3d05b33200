import Kraftwerk.Malloc.Kmalloc

set_option autoImplicit false

-- A call for which allocate_kern cuts a node is the kmalloc of that node, and then the call on
-- the heap that it leaves.
namespace Kraftwerk.Malloc

structure NodeTaken (base : Nat) (heap later : Heap) : Prop where
  words : ∀ address, address < chunkPage base 1 ∨ chunkPage base 1 + 32 ≤ address → later.word address = heap.word address
  sizes : later.chunkSize = heap.chunkSize
  mapped : later.mapped = heap.mapped

theorem node_taken_open_slot (base page : Nat) (heap later : Heap) (taken : NodeTaken base heap later)
    (few : slotCount (heap.chunkSize page) ≤ 256) (apart : page + 32 ≤ chunkPage base 1 ∨ chunkPage base 1 + 32 ≤ page) :
    openSlot later page = openSlot heap page :=
  open_slot_congr heap later page (congrFun taken.sizes page) few (fun word small => taken.words _ (by omega))

theorem node_taken_fresh_slot (base page order : Nat) (heap later : Heap) (taken : NodeTaken base heap later)
    (few : slotCount order ≤ 256) (apart : page + 32 ≤ chunkPage base 1 ∨ chunkPage base 1 + 32 ≤ page) :
    openSlot (mallocPreparePghdr later page order) page = openSlot (mallocPreparePghdr heap page order) page := by
  have sizeIs : ∀ heap : Heap, (mallocPreparePghdr heap page order).chunkSize page = order :=
    fun heap => Function.update_self _ _ _
  refine open_slot_congr _ _ page ((sizeIs later).trans (sizeIs heap).symm) ((sizeIs heap).symm ▸ few) (fun word small => ?_)
  rw [prepare_pghdr_word, prepare_pghdr_word, taken.words page (by omega), taken.words (page + 8 * word) (by omega)]

section
variable (base : Nat) (heap : Heap)

theorem inv_nodes (nodes : List Nat) (held : List (Nat × Nat)) (inv : Inv base ⟨heap, held⟩) :
    Inv base ⟨{ heap with nodes := nodes }, held⟩ :=
  inv_static base heap _ held inv ⟨fun _ _ _ => rfl, fun _ _ _ => rfl, fun _ _ _ => rfl, rfl, rfl, rfl, rfl⟩
    (fun _ member => member) inv.runs (fun _ member => Or.inl member)

theorem apart_symm (one other : Nat × Nat) (apart : Apart one.1 one.2 other.1 other.2) : Apart other.1 other.2 one.1 one.2 := by
  rw [Apart] at apart ⊢
  omega

theorem inv_perm (held other : List (Nat × Nat)) (perm : held.Perm other) (inv : Inv base ⟨heap, held⟩) :
    Inv base ⟨heap, other⟩ := by
  have ranges := (perm.pairwise_iff (fun {one other} apart => apart_symm one other apart)).mp inv.safe.ranges
  refine ⟨inv.core, fun order low => ?_, fun allocation member => inv.placed allocation (perm.mem_iff.mpr member), inv.runs,
    inv.direct, inv.pages, ranges, fun allocation member => inv.safe.headers allocation (perm.mem_iff.mpr member),
    fun allocation member => inv.safe.descriptors allocation (perm.mem_iff.mpr member)⟩
  exact chunks_perm heap _ order _ _ _ (((perm.filter _).map Prod.fst).append_right _) (inv.chunks order low)

end

section
variable (base : Nat) (kern : List (Nat × Nat) → Nat → KernAnswer) (heap : Heap) (live : List (Nat × Nat)) (fuel pages address : Nat)

-- The node gets a chunk of 32 bytes from the head of the list of order 1.
theorem node_cut (aligned : base % pageSize = 0) (inv : Inv base ⟨heap, (System.mk heap live).held⟩)
    (cut : kern heap.mapped pages = .split address) (free : ListFree heap (orderOf nodeBytes)) :
    ∃ later, allocateKernNode kern (kmallocFromWith (allocateKernNode kern) (fuel + 1)) heap pages =
        some (allocateKern (fun _ _ => address) later pages) ∧
      NodeTaken base heap later ∧ Inv base ⟨later, (System.mk later live).held⟩ := by
  obtain ⟨slot, found, clear⟩ := list_free_slot base heap _ (orderOf nodeBytes) inv (by decide) free
  have served := chunk_served base heap _ nodeBytes slot aligned inv (by decide) (by decide) (by rw [SizeCovers]; decide) found clear
  have chunk := kmalloc_chunk base heap _ (allocateKernNode kern) fuel nodeBytes mflagsEmerg slot inv (by decide) (by decide) found
  have order : orderOf nodeBytes = 1 := rfl
  rw [order] at found served chunk
  obtain ⟨below, _, _⟩ := open_slot_apart base 1 slot _ inv (by decide) found
  have count : slotCount 1 = 128 := rfl
  have page := chunk_page_eq base 1
  obtain ⟨taken, _, _⟩ := served
  dsimp only at taken
  rw [if_neg (by omega)] at taken
  refine ⟨{ setSlot (heap.increment (chunkPage base 1)) (chunkPage base 1) slot with
    nodes := (chunkPage base 1 + slot * chunkBytes 1) :: heap.nodes }, ?_,
    ⟨fun other outside => take_word heap _ slot other (by omega) outside, rfl, rfl⟩,
    inv_perm base _ _ _ List.perm_middle.symm (inv_nodes base _ _ _ taken)⟩
  rw [allocateKernNode, cut]
  dsimp only
  rw [chunk, Option.bind_some, if_neg (by dsimp only; omega)]
  rfl

-- What allocate_kern gives is what one that takes no node would give on a heap with the node.
theorem kern_given (aligned : base % pageSize = 0) (inv : Inv base ⟨heap, (System.mk heap live).held⟩)
    (given : (kern heap.mapped pages).given = some address) (free : NodeFree kern heap pages) :
    ∃ later, allocateKernNode kern (kmallocFromWith (allocateKernNode kern) (fuel + 1)) heap pages =
        some (allocateKern (fun _ _ => address) later pages) ∧
      NodeTaken base heap later ∧ Inv base ⟨later, (System.mk later live).held⟩ := by
  cases answer : kern heap.mapped pages with
  | null =>
      rw [answer] at given
      cases given
  | whole found =>
      rw [answer] at given
      obtain rfl := Option.some.inj given
      refine ⟨heap, ?_, ⟨fun _ _ => rfl, rfl, rfl⟩, inv⟩
      rw [allocateKernNode, answer]
      rfl
  | split found =>
      rw [answer] at given
      obtain rfl := Option.some.inj given
      exact node_cut base kern heap live fuel pages found aligned inv answer (free found answer)

theorem kern_null (kmalloc : Heap → Nat → Nat → Option (Heap × Nat)) (null : (kern heap.mapped pages).given = none) :
    allocateKernNode kern kmalloc heap pages = some (heap, 0) := by
  cases answer : kern heap.mapped pages with
  | null => rw [allocateKernNode, answer]
  | whole found =>
      rw [answer] at null
      cases null
  | split found =>
      rw [answer] at null
      cases null

end

-- Where a listed page serves the descriptor, allocate_kern is called once only.
theorem descriptor_once (one other : Heap → Nat → Option (Heap × Nat)) (heap : Heap) (maxPage : Nat)
    (walk : fullestPage heap addressCount (heap.mallocPages 0) 0 0 = some maxPage) (some : maxPage ≠ 0) :
    mallocAllocateDescriptorWith one heap = mallocAllocateDescriptorWith other heap := by
  rw [mallocAllocateDescriptorWith, mallocAllocateDescriptorWith, walk, Option.bind_some, Option.bind_some, if_neg some, if_neg some]

theorem prepare_new_page_once (kern : Heap → Nat → Option (Heap × Nat)) (heap later : Heap) (address order maxPage : Nat)
    (first : kern heap 1 = some (allocateKern (fun _ _ => address) later 1)) (listed : later.mallocPages 0 ≠ 0)
    (walk : fullestPage (preparedPage (fun _ _ => address) later order) addressCount (later.mallocPages 0) 0 0 = some maxPage)
    (some : maxPage ≠ 0) :
    mallocPrepareNewPageWith kern heap order = mallocPrepareNewPage (fun _ _ => address) later order := by
  have same := descriptor_once kern (takesNoNode (fun _ _ => address)) (preparedPage (fun _ _ => address) later order) maxPage
    walk some
  rw [mallocPrepareNewPage, mallocPrepareNewPageWith, mallocPrepareNewPageWith, first, takesNoNode, Option.bind_some,
    Option.bind_some]
  by_cases null : address = 0
  · exact (if_pos null).trans (if_pos null).symm
  · refine (if_neg null).trans (Eq.trans ?_ (if_neg null).symm)
    refine congrArg (Option.map _) ((if_neg listed).trans (Eq.trans ?_ (if_neg listed).symm))
    exact same

section
variable (base : Nat) (kern : List (Nat × Nat) → Nat → KernAnswer) (heap later : Heap) (live held : List (Nat × Nat))
variable (fuel bytes flags address : Nat)

theorem kmalloc_nodes_large (enough : addressCount = fuel + 1 + 1) (large : 1024 < bytes)
    (given : allocateKernNode kern (kmallocFromWith (allocateKernNode kern) (fuel + 1)) heap (kernPages bytes) =
      some (allocateKern (fun _ _ => address) later (kernPages bytes))) :
    kmallocNodes kern heap bytes flags = kmalloc (fun _ _ => address) later bytes flags := by
  rw [kmalloc_large _ later bytes flags large, ← given, kmallocNodes, enough]
  exact kmalloc_from_large (allocateKernNode kern) heap (fuel + 1) bytes flags large

theorem high_order_null (order : Nat) (high : 2 ≤ order) (inv : Inv base ⟨heap, held⟩) :
    firstPage heap (hasRoom order) addressCount (heap.mallocPages order) = some 0 := by
  rw [inv.core.lists, if_neg (by omega), if_neg (by omega), first_page_null]

theorem kmalloc_nodes_new_page (enough : addressCount = fuel + 1 + 1) (aligned : base % pageSize = 0)
    (fresh : FreshPages base later.mapped address 1) (inv : Inv base ⟨heap, live⟩) (invLater : Inv base ⟨later, held⟩)
    (small : bytes ≤ 1024) (high : 2 ≤ orderOf bytes) (normal : ¬ flags % 2 = 1)
    (given : allocateKernNode kern (kmallocFromWith (allocateKernNode kern) (fuel + 1)) heap 1 =
      some (allocateKern (fun _ _ => address) later 1)) :
    kmallocNodes kern heap bytes flags = kmalloc (fun _ _ => address) later bytes flags := by
  have prepared := inv_prepared base (fun _ _ => address) later held (orderOf bytes) aligned fresh invLater
  obtain ⟨atLeast, below⟩ := counted base (preparedPage (fun _ _ => address) later (orderOf bytes)) held prepared
  have fullest := fullest_page_core base _ prepared.core atLeast below
  have place := init_descriptor_cases base 30
  have head : later.mallocPages 0 = initDescriptor base 30 := invLater.core.lists 0
  have once := prepare_new_page_once _ heap later address (orderOf bytes) _ given (by omega) fullest (by omega)
  rw [kmalloc_prepares _ later bytes flags small normal (high_order_null base later held _ high invLater), kmallocNodes, enough,
    kmalloc_from_prepares (allocateKernNode kern) heap (fuel + 1) bytes flags small normal
      (high_order_null base heap live _ high inv), once]

end

end Kraftwerk.Malloc
