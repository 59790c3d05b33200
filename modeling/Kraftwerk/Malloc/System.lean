import Kraftwerk.Malloc.Init
import Kraftwerk.Lib.Runs

set_option autoImplicit false

-- The heap with its live allocations, and allocate_kern with the list nodes that it takes from the heap.
namespace Kraftwerk.Malloc

-- No free node of the region is large enough, one has just the size, or bisect_node cuts one.
inductive KernAnswer where
  | null
  | whole (address : Nat)
  | split (address : Nat)

def KernAnswer.given : KernAnswer → Option Nat
  | .null => none
  | .whole address => some address
  | .split address => some address

def nodeBytes : Nat := 32

def mflagsEmerg : Nat := 1

structure System where
  heap : Heap
  live : List (Nat × Nat)

def System.held (sys : System) : List (Nat × Nat) := sys.live ++ sys.heap.nodes.map (fun node => (node, nodeBytes))

inductive Call where
  | kmalloc (bytes flags : Nat)
  | kfree (allocation : Nat × Nat)

def Apart (address length other size : Nat) : Prop :=
  length = 0 ∨ size = 0 ∨ address + length ≤ other ∨ other + size ≤ address

structure Separate (heap : Heap) (held : List (Nat × Nat)) : Prop where
  ranges : held.Pairwise (fun one other => Apart one.1 one.2 other.1 other.2)
  headers : ∀ allocation ∈ held, ∀ page ∈ heap.pages, Apart allocation.1 allocation.2 page 48
  descriptors : ∀ allocation ∈ held, ∀ descriptor ∈ heap.direct ++ heap.descriptors,
    Apart allocation.1 allocation.2 descriptor 16

def Safe (sys : System) : Prop := Separate sys.heap sys.held

def chunkBytes (order : Nat) : Nat := 16 <<< order

@[simp] theorem chunk_bytes_zero : chunkBytes 0 = 16 := rfl

@[simp] theorem chunk_bytes_one : chunkBytes 1 = 32 := rfl

structure FreshPages (base : Nat) (mapped : List (Nat × Nat)) (address pages : Nat) : Prop where
  aligned : address % pageSize = 0
  positive : 0 < address
  static : Apart address (pages * pageSize) base 262144
  others : ∀ run ∈ mapped, Apart address (pages * pageSize) run.1 run.2

def SizeCovers (bytes : Nat) : Prop :=
  if 1024 < bytes then bytes ≤ kernPages bytes * pageSize else bytes ≤ chunkBytes (orderOf bytes)

-- Where malloc_direct_alloc has put descriptors of the emergency pages, on the heads of the lists.
def describedSlots (order : Nat) : List Nat := if order = 0 then [144, 192, 240] else [16, 40, 64, 88, 112]

def ChunkFree (heap : Heap) (page order : Nat) : Prop := ∃ slot, openSlot heap page = some slot ∧ slot ∉ describedSlots order

def ListFree (heap : Heap) (order : Nat) : Prop :=
  ∀ chosenPage, firstPage heap (hasRoom order) addressCount (heap.mallocPages order) = some chosenPage → chosenPage ≠ 0 →
    ChunkFree heap (heap.pageData chosenPage) order

-- The bit that kfree clears is that of the chunk itself or of one that is not in use.
def KfreeGuard (heap : Heap) (held : List (Nat × Nat)) (allocation : Nat × Nat) : Prop :=
  let page := allocation.1 / pageSize * pageSize
  let cleared := getChunkAddress page (freedSlot heap page allocation.1) (heap.chunkSize page)
  1024 < allocation.2 ∨ cleared = allocation.1 ∨
    (page + 48 ≤ cleared ∧ cleared ∉ held.map Prod.fst ∧ cleared ∉ heap.descriptors)

section
variable (kern : List (Nat × Nat) → Nat → KernAnswer)

-- bisect_node writes to its node without a look at what kmalloc answers.
def allocateKernNode (kmalloc : Heap → Nat → Nat → Option (Heap × Nat)) (heap : Heap) (pages : Nat) : Option (Heap × Nat) :=
  match kern heap.mapped pages with
  | .null => some (heap, 0)
  | .whole address => some (heap.handOut pages address, address)
  | .split address =>
      (kmalloc heap nodeBytes mflagsEmerg).bind (fun node =>
        if node.2 = 0 then none
        else some (({ node.1 with nodes := node.2 :: node.1.nodes } : Heap).handOut pages address, address))

def kmallocNodes (heap : Heap) (bytes flags : Nat) : Option (Heap × Nat) :=
  kmallocFromWith (allocateKernNode kern) addressCount heap bytes flags

-- An allocate_kern that never cuts a node takes nothing from the heap.
theorem kmalloc_nodes_whole (answers : List (Nat × Nat) → Nat → Nat) :
    kmallocNodes (fun mapped pages => .whole (answers mapped pages)) = kmalloc answers := rfl

def step (sys : System) : Call → Option System
  | .kmalloc bytes flags =>
      (kmallocNodes kern sys.heap bytes flags).map (fun result =>
        ⟨result.1, if result.2 = 0 then sys.live else (result.2, bytes) :: sys.live⟩)
  | .kfree allocation => some ⟨kfree sys.heap allocation.1, sys.live.erase allocation⟩

inductive Handed : List (Nat × Nat) → Prop where
  | nil : Handed []
  | cons (mapped : List (Nat × Nat)) (pages address : Nat) (before : Handed mapped) (any : 1 ≤ pages) (few : pages < 2 ^ 32)
      (given : (kern mapped pages).given = some address) : Handed ((address, pages * pageSize) :: mapped)

def Fresh (base : Nat) : Prop :=
  ∀ mapped pages address, Handed kern mapped → 1 ≤ pages → pages < 2 ^ 32 →
    (kern mapped pages).given = some address → FreshPages base mapped address pages

def NodeFree (heap : Heap) (pages : Nat) : Prop :=
  ∀ address, kern heap.mapped pages = .split address → ListFree heap (orderOf nodeBytes)

def NewPageFree (heap : Heap) (order : Nat) : Prop :=
  NodeFree kern heap 1 ∧
  (∃ maxPage slot, fullestPage heap addressCount (heap.mallocPages 0) 0 0 = some maxPage ∧
    openSlot heap (heap.pageData maxPage) = some slot) ∧
  ∃ address slot, (kern heap.mapped 1).given = some address ∧ openSlot (mallocPreparePghdr heap address order) address = some slot

def KmallocGuard (heap : Heap) (bytes flags : Nat) : Prop :=
  SizeCovers bytes ∧ (1024 < bytes → NodeFree kern heap (kernPages bytes)) ∧ (bytes ≤ 1024 →
    ∀ chosenPage, firstPage heap (hasRoom (orderOf bytes)) addressCount (heap.mallocPages (orderOf bytes)) = some chosenPage →
      if chosenPage = 0 then flags % 2 = 1 ∨ NewPageFree kern heap (orderOf bytes)
      else ChunkFree heap (heap.pageData chosenPage) (orderOf bytes))

-- kfree is called on live allocations only, and no call meets one of the defects.
def Guard (sys : System) : Call → Prop
  | .kmalloc bytes flags => KmallocGuard kern sys.heap bytes flags
  | .kfree allocation => allocation ∈ sys.live ∧ KfreeGuard sys.heap sys.held allocation

end

end Kraftwerk.Malloc
