import Kraftwerk.Malloc.Kfree
import Kraftwerk.Malloc.ListNodes

set_option autoImplicit false

-- Runs of kmalloc and kfree from the state that malloc_init builds.
namespace Kraftwerk.Malloc

theorem header_closed (heap : Heap) (page slot bits : Nat) (word : heap.word page = bits) (small : slot < 64)
    (taken : bits &&& slotMask slot ≠ 0) : isOpen heap page slot = false := by
  rw [isOpen, bitmap_word_first page slot small, word]
  exact beq_false_of_ne taken

theorem inv_stocked (base : Nat) (heap : Heap) (aligned : base % pageSize = 0) (stocked : Stocked base 32 heap) :
    Inv base ⟨heap, []⟩ := by
  rw [pageSize] at aligned
  refine ⟨stocked.core, fun order low => ?_, List.forall_mem_nil _, fun run member => ?_, stocked.direct, fun page member => ?_,
    ⟨List.Pairwise.nil, List.forall_mem_nil _, List.forall_mem_nil _⟩⟩
  · have users : (System.mk heap []).users base order = [] := by
      have none : (System.mk heap []).heap.descriptors = [] := stocked.descriptors
      rw [System.users, none]
      split <;> rfl
    rw [users]
    interval_cases order
    · refine ⟨stocked.bitmap.order, stocked.count, fun slot reserved => ?_, List.nodup_nil, List.forall_mem_nil _⟩
      rw [chunk_bytes_zero] at reserved
      have closed : ∀ slot < 3, bitmapAfter 32 0 &&& slotMask slot ≠ 0 := by decide
      exact header_closed heap _ slot _ (stocked.bitmap.words 0 (by decide)) (by omega) (closed slot (by omega))
    · refine ⟨stocked.order, stocked.empty, fun slot reserved => ?_, List.nodup_nil, List.forall_mem_nil _⟩
      rw [chunk_bytes_one] at reserved
      have closed : ∀ slot < 2, 3 &&& slotMask slot ≠ 0 := by decide
      exact header_closed heap _ slot 3 (stocked.header 0 (by decide)) (by omega) (closed slot (by omega))
  · have none : (System.mk heap []).heap.mapped = [] := stocked.mapped
    rw [none] at member
    cases member
  · obtain ⟨j, small, rfl⟩ := stocked.pages page member
    rw [initPage, pageSize]
    exact ⟨by omega, Or.inl (by omega)⟩

-- After malloc_init the first chunk of order 0 is the one of slot 67.
theorem first_chunk (base : Nat) (heap : Heap) (stocked : Stocked base 32 heap) :
    openSlot heap (chunkPage base 0) = some 67 :=
  open_slot_taken heap _ 32 (by decide) stocked.bitmap

theorem first_chunk_free (base : Nat) (heap : Heap) (aligned : base % pageSize = 0) (stocked : Stocked base 32 heap)
    (chosenPage : Nat) (walk : firstPage heap (hasRoom 0) addressCount (heap.mallocPages 0) = some chosenPage) :
    chosenPage ≠ 0 ∧ ChunkFree heap (heap.pageData chosenPage) 0 := by
  obtain ⟨head, data⟩ := chosen_page base heap [] 0 (inv_stocked base heap aligned stocked) (by decide)
  obtain rfl : initDescriptor base 30 = chosenPage := Option.some.inj (head.symm.trans walk)
  have place := init_descriptor_cases base 30
  have page : heap.pageData (initDescriptor base 30) = chunkPage base 0 := data
  rw [page]
  exact ⟨by omega, 67, first_chunk base heap stocked, by decide⟩

-- The invariant with the list nodes among the allocations, and the pages as allocate_kern gave them.
structure RunInv (base : Nat) (kern : List (Nat × Nat) → Nat → KernAnswer) (sys : System) : Prop where
  inv : Inv base ⟨sys.heap, sys.held⟩
  handed : Handed kern sys.heap.mapped

theorem run_inv_stocked (base : Nat) (kern : List (Nat × Nat) → Nat → KernAnswer) (heap : Heap) (aligned : base % pageSize = 0)
    (stocked : Stocked base 32 heap) : RunInv base kern ⟨heap, []⟩ := by
  refine ⟨?_, ?_⟩
  · rw [System.held]
    dsimp only
    rw [stocked.nodes]
    exact inv_stocked base heap aligned stocked
  · dsimp only
    rw [stocked.mapped]
    exact Handed.nil

section
variable (base : Nat) (kern : List (Nat × Nat) → Nat → KernAnswer) (heap : Heap) (live : List (Nat × Nat)) (bytes flags : Nat)

theorem run_inv_served (before : Heap) (mapped : List (Nat × Nat)) (result : Heap × Nat) (handed : Handed kern mapped)
    (served : Served base before (System.mk before live).held bytes mapped result) :
    RunInv base kern ⟨result.1, if result.2 = 0 then live else (result.2, bytes) :: live⟩ := by
  refine ⟨?_, served.mapped.symm ▸ handed⟩
  have inv := served.inv
  rw [System.held] at inv ⊢
  dsimp only at inv ⊢
  rw [served.nodes]
  by_cases null : result.2 = 0
  · rwa [if_pos null] at inv ⊢
  · rwa [if_neg null] at inv ⊢

theorem step_pages (aligned : base % pageSize = 0) (fresh : Fresh kern base) (inv : RunInv base kern ⟨heap, live⟩)
    (large : 1024 < bytes) (covers : SizeCovers bytes) (free : NodeFree kern heap (kernPages bytes)) :
    ∃ later, step kern ⟨heap, live⟩ (.kmalloc bytes flags) = some later ∧ RunInv base kern later := by
  obtain ⟨fuel, enough⟩ := address_count_succ
  have whole := covers
  rw [SizeCovers, if_pos large] at whole
  have any : 1 ≤ kernPages bytes := by
    by_contra none
    rw [Nat.lt_one_iff.mp (Nat.lt_of_not_le none), Nat.zero_mul] at whole
    omega
  have few : kernPages bytes < 2 ^ 32 := Nat.mod_lt _ (by decide)
  rw [step]
  cases given : (kern heap.mapped (kernPages bytes)).given with
  | none =>
      have called := kmalloc_from_large (allocateKernNode kern) heap (fuel + 1) bytes flags large
      rw [kern_null kern heap _ _ given] at called
      rw [kmallocNodes, enough, called]
      exact ⟨_, rfl, inv⟩
  | some address =>
      obtain ⟨later, answered, taken, invLater⟩ := kern_given base kern heap live fuel _ address aligned inv.inv given free
      have pages := fresh heap.mapped _ address inv.handed any few given
      obtain ⟨result, served, serves⟩ := pages_served base (fun _ _ => address) later _ bytes flags aligned
        (taken.mapped.symm ▸ pages) invLater large covers
      rw [kmalloc_nodes_large kern heap later fuel bytes flags address enough large answered, served]
      refine ⟨_, rfl, run_inv_served base kern live bytes later _ result ?_ serves⟩
      rw [taken.mapped]
      exact Handed.cons heap.mapped _ address inv.handed any few given

theorem step_chunk (aligned : base % pageSize = 0) (inv : RunInv base kern ⟨heap, live⟩) (small : bytes ≤ 1024)
    (low : orderOf bytes < 2) (covers : SizeCovers bytes) (free : ListFree heap (orderOf bytes)) :
    ∃ later, step kern ⟨heap, live⟩ (.kmalloc bytes flags) = some later ∧ RunInv base kern later := by
  obtain ⟨fuel, enough⟩ := address_count_succ
  obtain ⟨slot, found, clear⟩ := list_free_slot base heap _ (orderOf bytes) inv.inv low free
  have called := kmalloc_chunk base heap _ (allocateKernNode kern) (fuel + 1) bytes flags slot inv.inv small low found
  rw [step, kmallocNodes, enough, called]
  exact ⟨_, rfl, run_inv_served base kern live bytes heap _ _ inv.handed
    (chunk_served base heap _ bytes slot aligned inv.inv small low covers found clear)⟩

theorem step_emergency (inv : RunInv base kern ⟨heap, live⟩) (small : bytes ≤ 1024) (high : 2 ≤ orderOf bytes)
    (emergency : flags % 2 = 1) : step kern ⟨heap, live⟩ (.kmalloc bytes flags) = some ⟨heap, live⟩ := by
  obtain ⟨fuel, enough⟩ := address_count_succ
  rw [step, kmallocNodes, enough, kmalloc_from_null (allocateKernNode kern) heap (fuel + 1) bytes flags small emergency
    inv.inv.core.emerg (high_order_null base heap _ _ high inv.inv)]
  rfl

theorem step_new_page (aligned : base % pageSize = 0) (fresh : Fresh kern base) (inv : RunInv base kern ⟨heap, live⟩)
    (small : bytes ≤ 1024) (high : 2 ≤ orderOf bytes) (covers : SizeCovers bytes) (normal : ¬ flags % 2 = 1)
    (guard : NewPageFree kern heap (orderOf bytes)) :
    ∃ later, step kern ⟨heap, live⟩ (.kmalloc bytes flags) = some later ∧ RunInv base kern later := by
  obtain ⟨free, ⟨maxPage, slot, fullest, found⟩, address, second, given, secondFound⟩ := guard
  obtain ⟨fuel, enough⟩ := address_count_succ
  obtain ⟨later, answered, taken, invLater⟩ := kern_given base kern heap live fuel 1 address aligned inv.inv given free
  have pages := fresh heap.mapped 1 address inv.handed (Nat.le_refl 1) (by decide) given
  have static := pages.static
  have page := chunk_page_eq base 1
  have first := chunk_page_eq base 0
  rw [Apart, pageSize] at static
  obtain ⟨atLeast, below⟩ := counted base heap _ inv.inv
  obtain rfl : initDescriptor base 30 = maxPage :=
    Option.some.inj ((fullest_page_core base heap inv.inv.core atLeast below).symm.trans fullest)
  have data : heap.pageData (initDescriptor base 30) = chunkPage base 0 := inv.inv.core.data 30 (by decide)
  have size : heap.chunkSize (chunkPage base 0) = 0 := (inv.inv.chunks 0 (by decide)).size
  have order := (large_order (orderOf bytes) (Nat.lt_succ_of_le (order_small bytes small))).1
  rw [data, ← node_taken_open_slot base _ heap later taken (by rw [size]; decide) (by omega)] at found
  rw [← node_taken_fresh_slot base address _ heap later taken order (by omega)] at secondFound
  rw [← taken.mapped] at pages
  obtain ⟨result, served, serves⟩ := new_page_served base (fun _ _ => address) later _ bytes flags slot second aligned pages
    invLater small high covers normal found secondFound
  rw [step, kmalloc_nodes_new_page base kern heap later _ _ fuel bytes flags address enough aligned pages inv.inv invLater small
    high normal answered, served]
  refine ⟨_, rfl, run_inv_served base kern live bytes later _ result ?_ serves⟩
  rw [taken.mapped]
  exact Handed.cons heap.mapped 1 address inv.handed (Nat.le_refl 1) (by decide) given

theorem step_free (allocation : Nat × Nat) (aligned : base % pageSize = 0) (inv : RunInv base kern ⟨heap, live⟩)
    (member : allocation ∈ live) (guard : KfreeGuard heap (System.mk heap live).held allocation) :
    RunInv base kern ⟨kfree heap allocation.1, live.erase allocation⟩ := by
  obtain ⟨_, _, _, mapped, _, _, _, nodes⟩ := kfree_rest heap allocation.1
  have freed := inv_free base heap _ allocation aligned inv.inv (List.mem_append_left _ member) guard
  refine ⟨?_, mapped.symm ▸ inv.handed⟩
  rw [System.held] at freed ⊢
  dsimp only at freed ⊢
  rwa [nodes, ← List.erase_append_left _ member]

end

theorem step_inv (base : Nat) (kern : List (Nat × Nat) → Nat → KernAnswer) (sys : System) (call : Call)
    (aligned : base % pageSize = 0) (fresh : Fresh kern base) (inv : RunInv base kern sys) (guard : Guard kern sys call) :
    ∃ later, step kern sys call = some later ∧ RunInv base kern later := by
  obtain ⟨heap, live⟩ := sys
  cases call with
  | kmalloc bytes flags =>
      obtain ⟨covers, node, chunk⟩ := guard
      by_cases large : 1024 < bytes
      · exact step_pages base kern heap live bytes flags aligned fresh inv large covers (node large)
      · have small := Nat.le_of_not_lt large
        have free := chunk small
        by_cases low : orderOf bytes < 2
        · refine step_chunk base kern heap live bytes flags aligned inv small low covers (fun chosenPage walk linked => ?_)
          have freeChunk := free chosenPage walk
          rwa [if_neg linked] at freeChunk
        · have high := Nat.le_of_not_lt low
          have freePage := free 0 (high_order_null base heap _ _ high inv.inv)
          rw [if_pos rfl] at freePage
          by_cases emergency : flags % 2 = 1
          · exact ⟨_, step_emergency base kern heap live bytes flags inv small high emergency, inv⟩
          · exact step_new_page base kern heap live bytes flags aligned fresh inv small high covers emergency
              (freePage.resolve_left emergency)
  | kfree allocation => exact ⟨_, rfl, step_free base kern heap live allocation aligned inv guard.1 guard.2⟩

theorem guarded_runs_inv (base : Nat) (kern : List (Nat × Nat) → Nat → KernAnswer) (heap : Heap) (calls : List Call)
    (aligned : base % pageSize = 0) (fresh : Fresh kern base) (stocked : Stocked base 32 heap)
    (along : Runs.Along (step kern) (Guard kern) ⟨heap, []⟩ calls) :
    Runs.Visits (step kern) (RunInv base kern) ⟨heap, []⟩ calls :=
  Runs.visits_of_along (step kern) (Guard kern) (RunInv base kern)
    (fun sys call inv guard => step_inv base kern sys call aligned fresh inv guard) ⟨heap, []⟩ calls
    (run_inv_stocked base kern heap aligned stocked) along

-- Every state of a run that meets no defect is safe, and no call of it fails to return.
theorem guarded_runs_safe (base : Nat) (kern : List (Nat × Nat) → Nat → KernAnswer) (word chunkSize nAllocations : Nat → Nat)
    (aligned : base % pageSize = 0) (fresh : Fresh kern base) :
    ∃ heap, mallocInit base (boot base word chunkSize nAllocations) = some heap ∧
      ∀ calls, Runs.Along (step kern) (Guard kern) ⟨heap, []⟩ calls → Runs.Visits (step kern) Safe ⟨heap, []⟩ calls := by
  obtain ⟨heap, init, stocked⟩ := malloc_init_stocked base word chunkSize nAllocations
  refine ⟨heap, init, fun calls along => ?_⟩
  have visits := guarded_runs_inv base kern heap calls aligned fresh stocked along
  exact Runs.visits_mono (step kern) (RunInv base kern) Safe _ calls (fun _ inv => inv.inv.safe) visits

def allocateUp (base : Nat) (mapped : List (Nat × Nat)) (_pages : Nat) : Nat :=
  (mapped.foldr (fun run top => max (run.1 + run.2) top) (base + 262144) + 4095) / 4096 * 4096

theorem allocate_up_fresh (base pages : Nat) (mapped : List (Nat × Nat)) :
    FreshPages base mapped (allocateUp base mapped pages) pages := by
  have above : ∀ mapped : List (Nat × Nat), base + 262144 ≤ mapped.foldr (fun run top => max (run.1 + run.2) top) (base + 262144) ∧
      ∀ run ∈ mapped, run.1 + run.2 ≤ mapped.foldr (fun run top => max (run.1 + run.2) top) (base + 262144) := by
    intro mapped
    induction mapped with
    | nil => exact ⟨Nat.le_refl _, List.forall_mem_nil _⟩
    | cons head rest ih =>
        refine ⟨Nat.le_trans ih.1 (Nat.le_max_right _ _), fun run member => ?_⟩
        rcases List.mem_cons.mp member with rfl | member
        · exact Nat.le_max_left _ _
        · exact Nat.le_trans (ih.2 run member) (Nat.le_max_right _ _)
  obtain ⟨static, ends⟩ := above mapped
  rw [allocateUp]
  generalize mapped.foldr (fun run top => max (run.1 + run.2) top) (base + 262144) = top at static ends
  refine ⟨by rw [pageSize]; omega, by omega, Or.inr (Or.inr (Or.inr (by omega))), fun run member => ?_⟩
  have before := ends run member
  exact Or.inr (Or.inr (Or.inr (by omega)))

-- One node holds all that is left of the 2^64 bytes, and each call cuts it.
def splitUp (base : Nat) (mapped : List (Nat × Nat)) (pages : Nat) : KernAnswer :=
  if allocateUp base mapped pages + pages * pageSize ≤ 2 ^ 64 then .split (allocateUp base mapped pages) else .null

theorem split_up_fresh (base : Nat) : Fresh (splitUp base) base := by
  intro mapped pages address _ _ _ given
  rw [splitUp] at given
  split at given
  · obtain rfl := Option.some.inj given
    exact allocate_up_fresh base pages mapped
  · cases given

theorem first_step (base : Nat) (kern : List (Nat × Nat) → Nat → KernAnswer) (heap : Heap) (bytes flags : Nat)
    (aligned : base % pageSize = 0) (stocked : Stocked base 32 heap) (small : bytes ≤ 1024) (zero : orderOf bytes = 0) :
    step kern ⟨heap, []⟩ (.kmalloc bytes flags) =
      some ⟨setSlot (heap.increment (chunkPage base 0)) (chunkPage base 0) 67, [(base + 123952, bytes)]⟩ := by
  obtain ⟨fuel, enough⟩ := address_count_succ
  have place : chunkPage base 0 + 67 * chunkBytes 0 = base + 123952 := by
    rw [chunk_page_eq, chunk_bytes_zero]
  have called := kmalloc_chunk base heap [] (allocateKernNode kern) (fuel + 1) bytes flags 67
    (inv_stocked base heap aligned stocked) small (by omega) (by rw [zero]; exact first_chunk base heap stocked)
  rw [step, kmallocNodes, enough, called, zero, place]
  exact congrArg some (congrArg (System.mk _) (if_neg (by dsimp only; omega)))

theorem node_slot (base : Nat) (heap : Heap) (stocked : Stocked base 32 heap) : openSlot heap (chunkPage base 1) = some 2 := by
  have order : heap.chunkSize (chunkPage base 1) = 1 := stocked.order
  have word : heap.word (chunkPage base 1) = 3 := stocked.header 0 (by decide)
  have closed : ∀ slot < 2, 3 &&& slotMask slot ≠ 0 := by decide
  refine (open_slot_eq_some_iff heap _ 2).mpr ⟨by rw [order]; decide, ?_, fun slot below => ?_⟩
  · rw [isOpen, bitmap_word_first _ 2 (by decide), word]
    rfl
  · exact header_closed heap _ slot 3 word (by omega) (closed slot below)

-- With one chunk taken, the list of order 1 still has a chunk for a node.
theorem first_node_free (base : Nat) (kern : List (Nat × Nat) → Nat → KernAnswer) (heap : Heap) (pages : Nat)
    (aligned : base % pageSize = 0) (stocked : Stocked base 32 heap) :
    NodeFree kern (setSlot (heap.increment (chunkPage base 0)) (chunkPage base 0) 67) pages := by
  intro address _ chosenPage walk _
  have inv := inv_take base 0 67 16 heap [] aligned (inv_stocked base heap aligned stocked) (by decide) (by decide)
    (first_chunk base heap stocked) (by decide)
  obtain ⟨head, data⟩ := chosen_page base _ _ 1 inv (by decide)
  obtain rfl := Option.some.inj (head.symm.trans walk)
  have order : heap.chunkSize (chunkPage base 1) = 1 := stocked.order
  have first := chunk_page_eq base 0
  have second := chunk_page_eq base 1
  refine ⟨2, ?_, by decide⟩
  rw [data, ← node_slot base heap stocked]
  exact open_slot_congr heap _ _ rfl (by rw [order]; decide) (fun word small => take_word heap _ 67 _ (by decide) (by omega))

-- The first pages that are handed out follow the static ones.
theorem pages_step (base : Nat) (heap : Heap) (live : List (Nat × Nat)) (bytes flags : Nat) (next : System)
    (aligned : base % pageSize = 0) (inv : RunInv base (splitUp base) ⟨heap, live⟩) (none : heap.mapped = [])
    (large : 1024 < bytes) (free : NodeFree (splitUp base) heap (kernPages bytes))
    (given : (splitUp base [] (kernPages bytes)).given = some (base + 262144))
    (stepped : step (splitUp base) ⟨heap, live⟩ (.kmalloc bytes flags) = some next) :
    (base + 262144, bytes) ∈ next.live := by
  obtain ⟨fuel, enough⟩ := address_count_succ
  obtain ⟨later, answered, _, _⟩ := kern_given base (splitUp base) heap live fuel _ (base + 262144) aligned inv.inv
    (none.symm ▸ given) free
  rw [step, kmalloc_nodes_large (splitUp base) heap later fuel bytes flags _ enough large answered, kmalloc_large _ _ _ _ large]
    at stepped
  obtain rfl := Option.some.inj stepped
  have address : (allocateKern (fun _ _ => base + 262144) later (kernPages bytes)).2 = base + 262144 := rfl
  dsimp only
  rw [address, if_neg (by omega)]
  exact List.mem_cons_self

theorem guarded_runs_safe_pages :
    ∃ heap, mallocInit 0x100000 (boot 0x100000 (fun _ => 0) (fun _ => 0) (fun _ => 0)) = some heap ∧
      Runs.Visits (step (splitUp 0x100000)) Safe ⟨heap, []⟩ [.kmalloc 16 0, .kmalloc 8192 0, .kfree (0x140000, 8192)] := by
  have aligned : 0x100000 % pageSize = 0 := rfl
  have large : 1024 < 8192 := by decide
  have fresh := split_up_fresh 0x100000
  obtain ⟨heap, init, runs⟩ := guarded_runs_safe 0x100000 (splitUp 0x100000) (fun _ => 0) (fun _ => 0) (fun _ => 0) aligned fresh
  obtain ⟨same, sameInit, stocked⟩ := malloc_init_stocked 0x100000 (fun _ => 0) (fun _ => 0) (fun _ => 0)
  obtain rfl : same = heap := Option.some.inj (sameInit.symm.trans init)
  have first := first_step 0x100000 (splitUp 0x100000) same 16 0 aligned stocked (by decide) (by decide)
  have node := first_node_free 0x100000 (splitUp 0x100000) same (kernPages 8192) aligned stocked
  have guard : KmallocGuard (splitUp 0x100000) same 16 0 := by
    refine ⟨by rw [SizeCovers]; decide, fun large => absurd large (by decide), fun _ chosenPage walk => ?_⟩
    obtain ⟨linked, free⟩ := first_chunk_free 0x100000 same aligned stocked chosenPage walk
    rw [if_neg linked]
    exact free
  obtain ⟨after, firstStep, inv⟩ := step_inv 0x100000 (splitUp 0x100000) ⟨same, []⟩ (.kmalloc 16 0) aligned fresh
    (run_inv_stocked 0x100000 _ same aligned stocked) guard
  obtain rfl := Option.some.inj (first.symm.trans firstStep)
  refine ⟨same, init, runs _ ⟨guard, fun next stepped => ?_⟩⟩
  obtain rfl := Option.some.inj (first.symm.trans stepped)
  refine ⟨⟨by rw [SizeCovers]; decide, fun _ => node, fun small => absurd small (by decide)⟩, fun last second => ?_⟩
  refine ⟨⟨?_, Or.inl large⟩, fun _ _ => trivial⟩
  exact pages_step 0x100000 _ _ 8192 0 last aligned inv stocked.mapped large node (by decide) second

-- Two chunks of 16 bytes lie side by side although 24 bytes were asked for each time.
theorem kmalloc_24_overlaps : ∃ heap, mallocInit 0x100000 (boot 0x100000 (fun _ => 0) (fun _ => 0) (fun _ => 0)) = some heap ∧
    Runs.run (step (splitUp 0x100000)) ⟨heap, []⟩ [.kmalloc 24 0, .kmalloc 24 0] ≠ none ∧
    ¬ Runs.Visits (step (splitUp 0x100000)) Safe ⟨heap, []⟩ [.kmalloc 24 0, .kmalloc 24 0] := by
  have aligned : 0x100000 % pageSize = 0 := rfl
  obtain ⟨heap, init, stocked⟩ := malloc_init_stocked 0x100000 (fun _ => 0) (fun _ => 0) (fun _ => 0)
  obtain ⟨fuel, enough⟩ := address_count_succ
  have first := first_step 0x100000 (splitUp 0x100000) heap 24 0 aligned stocked (by decide) (by decide)
  have inv := inv_take 0x100000 0 67 16 heap [] aligned (inv_stocked 0x100000 heap aligned stocked) (by decide) (by decide)
    (first_chunk 0x100000 heap stocked) (by decide)
  have taken := taken_set_slot (heap.increment (chunkPage 0x100000 0)) _ 32 (by decide)
    ⟨stocked.bitmap.order, stocked.bitmap.words⟩
  have called := kmalloc_chunk 0x100000 _ _ (allocateKernNode (splitUp 0x100000)) (fuel + 1) 24 0 68 inv (by decide) (by decide)
    (open_slot_taken _ _ 33 (by decide) taken)
  have second : step (splitUp 0x100000) ⟨setSlot (heap.increment 1171456) 1171456 67, [(1172528, 24)]⟩ (.kmalloc 24 0) =
      some ⟨setSlot ((setSlot (heap.increment 1171456) 1171456 67).increment 1171456) 1171456 68,
        [(1172544, 24), (1172528, 24)]⟩ := by
    rw [step, kmallocNodes, enough]
    exact congrArg (Option.map _) called
  refine ⟨heap, init, ?_, fun visits => ?_⟩
  · rw [Runs.run, first, Option.bind_some, Runs.run]
    exact fun none => Option.some_ne_none _ ((congrArg (Option.bind · _) second).symm.trans none)
  · obtain ⟨_, next, stepped, _, last, lastStepped, safe⟩ := visits
    obtain rfl := Option.some.inj (first.symm.trans stepped)
    obtain rfl := Option.some.inj (second.symm.trans lastStepped)
    have ranges : List.Pairwise _ ((1172544, 24) :: (1172528, 24) :: _) := safe.ranges
    have apart := (List.pairwise_cons.mp ranges).1 (1172528, 24) List.mem_cons_self
    exact absurd apart (by rw [Apart]; decide)

end Kraftwerk.Malloc
