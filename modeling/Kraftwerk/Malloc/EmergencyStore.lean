import Kraftwerk.Malloc.Termination

set_option autoImplicit false

-- Emergency requests in the states that malloc_init and kmalloc lead to.
namespace Kraftwerk.Malloc

def servingPage (heap : Heap) (order : Nat) : Nat → Nat → Option Nat
  | 0, _ => none
  | fuel + 1, cur =>
      if cur = 0 then none
      else if usable heap order cur then some (heap.pageData cur)
      else servingPage heap order fuel (heap.next cur)

structure Stock where
  heap : Heap
  used : List Nat

section
variable (kern : List (Nat × Nat) → Nat → Nat)

def callKmalloc (stock : Stock) (call : Nat × Nat) : Option Stock :=
  (kmalloc kern stock.heap call.1 call.2).map (fun served =>
    ⟨served.1, if call.1 ≤ 1024 ∧ call.2 % 2 = 1 ∧ NeedsPage (orderOf call.1) stock.heap then
      (servingPage stock.heap (orderOf call.1) addressCount stock.heap.emergPages).toList ++ stock.used else stock.used⟩)

def EmergencyServes (stock : Stock) : Prop :=
  ∀ bytes ≤ 1024, NeedsPage (orderOf bytes) stock.heap → stock.used.dedup.length < mallocEmergPages →
    ∃ later address page, kmalloc kern stock.heap bytes 1 = some (later, address) ∧ address ≠ 0 ∧
      servingPage stock.heap (orderOf bytes) addressCount stock.heap.emergPages = some page ∧
      page ≤ address ∧ address + chunkBytes (orderOf bytes) ≤ page + pageSize

-- What malloc_init leaves and no call of kmalloc changes: emerg_pages is NULL.
structure Unpublished (heap : Heap) (stock : Stock) : Prop where
  lists : stock.heap.mallocPages = heap.mallocPages
  emerg : stock.heap.emergPages = 0
  used : stock.used = []

theorem call_unpublished (heap : Heap) (stock : Stock) (call : Nat × Nat) (next : Stock) (inv : Unpublished heap stock)
    (stepped : callKmalloc kern stock call = some next) : Unpublished heap next := by
  obtain ⟨⟨later, address⟩, served, rfl⟩ := Option.map_eq_some_iff.mp stepped
  obtain ⟨lists, emerg⟩ := kmalloc_lists kern stock.heap later call.1 call.2 address (Or.inr inv.emerg) served
  have none : servingPage stock.heap (orderOf call.1) addressCount stock.heap.emergPages = none := by
    obtain ⟨fuel, enough⟩ : ∃ fuel, addressCount = fuel + 1 := ⟨2 ^ 64 - 1, rfl⟩
    rw [inv.emerg, enough, servingPage, if_pos rfl]
  refine ⟨lists.trans inv.lists, emerg.trans inv.emerg, ?_⟩
  dsimp only
  rw [none, inv.used]
  split
  · rfl
  · rfl

theorem unpublished_runs (heap : Heap) (calls : List (Nat × Nat)) (last : Stock) (empty : heap.emergPages = 0)
    (finished : Runs.run (callKmalloc kern) ⟨heap, []⟩ calls = some last) : Unpublished heap last :=
  Runs.run_invariant (callKmalloc kern) (fun _ _ => True) (Unpublished heap)
    (fun stock call next inv _ => call_unpublished kern heap stock call next inv) ⟨heap, []⟩ last calls ⟨rfl, empty, rfl⟩
    (Runs.along_true (callKmalloc kern) ⟨heap, []⟩ calls) finished

-- The last statement of malloc_init stores emerg_pages in emerg_head instead of the other way round.
theorem emergency_store_unused (base : Nat) (word chunkSize nAllocations : Nat → Nat) :
    ∃ heap, mallocInit base (boot base word chunkSize nAllocations) = some heap ∧
      ∀ calls last, Runs.run (callKmalloc kern) ⟨heap, []⟩ calls = some last →
        ¬ EmergencyServes kern last ∧
          ∀ bytes ≤ 1024, NeedsPage (orderOf bytes) last.heap → kmalloc kern last.heap bytes 1 = some (last.heap, 0) := by
  obtain ⟨heap, init, stocked⟩ := malloc_init_stocked base word chunkSize nAllocations
  refine ⟨heap, init, fun calls last finished => ?_⟩
  have inv := unpublished_runs kern heap calls last stocked.core.emerg finished
  have null : ∀ bytes ≤ 1024, NeedsPage (orderOf bytes) last.heap → kmalloc kern last.heap bytes 1 = some (last.heap, 0) :=
    fun bytes small needs => kmalloc_emergency_null kern last.heap bytes 1 small (by decide) inv.emerg needs
  refine ⟨fun serves => ?_, null⟩
  have noList : last.heap.mallocPages (orderOf 64) = 0 := by
    rw [inv.lists, stocked.core.lists]
    rfl
  have needs := needs_page_null (orderOf 64) last.heap noList
  have few : last.used.dedup.length < mallocEmergPages := by
    rw [inv.used]
    decide
  obtain ⟨later, address, page, served, nonzero, _⟩ := serves 64 (by decide) needs few
  exact nonzero (Prod.mk.inj (Option.some.inj (served.symm.trans (null 64 (by decide) needs)))).2

end

theorem emergency_store_unused_start :
    ∃ heap, mallocInit 0x100000 (boot 0x100000 (fun _ => 0) (fun _ => 0) (fun _ => 0)) = some heap ∧
      ¬ EmergencyServes (allocateUp 0x100000) ⟨heap, []⟩ := by
  obtain ⟨heap, init, runs⟩ := emergency_store_unused (allocateUp 0x100000) 0x100000 (fun _ => 0) (fun _ => 0) (fun _ => 0)
  exact ⟨heap, init, (runs [] ⟨heap, []⟩ rfl).1⟩

theorem first_emergency_null :
    ∃ heap, mallocInit 0x100000 (boot 0x100000 (fun _ => 0) (fun _ => 0) (fun _ => 0)) = some heap ∧
      NeedsPage (orderOf 64) heap ∧ kmalloc (allocateUp 0x100000) heap 64 1 = some (heap, 0) ∧
      ¬ EmergencyServes (allocateUp 0x100000) ⟨heap, []⟩ := by
  obtain ⟨heap, init, stocked⟩ := malloc_init_stocked 0x100000 (fun _ => 0) (fun _ => 0) (fun _ => 0)
  have needs := needs_page_null (orderOf 64) heap (stocked.core.lists (orderOf 64))
  have null := kmalloc_emergency_null (allocateUp 0x100000) heap 64 1 (by decide) (by decide) stocked.core.emerg needs
  refine ⟨heap, init, needs, null, fun serves => ?_⟩
  obtain ⟨later, address, page, served, nonzero, _⟩ := serves 64 (by decide) needs (show 0 < 32 by decide)
  exact nonzero (Prod.mk.inj (Option.some.inj (served.symm.trans null))).2

end Kraftwerk.Malloc
