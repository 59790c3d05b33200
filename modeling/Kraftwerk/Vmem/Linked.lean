import Kraftwerk.Vmem.Regions
import Mathlib.Logic.Function.Basic

set_option autoImplicit false

-- os/core/virtual_mem.cpp over memory: the vmem_ll_node nodes at their addresses,
-- linked by next. A result of none is a call that follows NULL or never returns.
namespace Kraftwerk.Vmem.Linked

abbrev Ptr := BitVec 64

structure LlNode extends Node where
  next : Ptr
deriving DecidableEq, Repr

-- The nodes, how often kmalloc has answered, and which of its answers kfree has not
-- been given yet. kfree leaves the node itself as it is.
structure Memory where
  nodes : Ptr → LlNode
  mallocs : Nat
  live : List Ptr

def Memory.set (memory : Memory) (node : Ptr) (change : LlNode → LlNode) : Memory :=
  { memory with nodes := Function.update memory.nodes node (change (memory.nodes node)) }

@[simp] theorem set_nodes (memory : Memory) (node other : Ptr) (change : LlNode → LlNode) :
    (memory.set node change).nodes other = if other = node then change (memory.nodes node) else memory.nodes other := by
  simp [Memory.set, Function.update_apply]

@[simp] theorem set_live (memory : Memory) (node : Ptr) (change : LlNode → LlNode) :
    (memory.set node change).live = memory.live := rfl

structure RegDesc where
  regStart : Addr
  regSize : BitVec 64
  list : Ptr
deriving DecidableEq, Repr

-- kmalloc answers NULL or storage that is not in use; that can be a node which kfree
-- was given while it is still linked. It does not come back to the region by itself.
structure Kmalloc where
  answer : Memory → Ptr
  unused : ∀ memory, answer memory ≠ 0 → answer memory ∉ memory.live

section
variable (kmalloc : Kmalloc)

def bisectNode (prevNode : Ptr) (newSize : BitVec 64) (memory : Memory) : Option (Ptr × Memory) :=
  let newNode := kmalloc.answer memory
  if newNode = 0 then none
  else
    let memory := { memory with mallocs := memory.mallocs + 1, live := newNode :: memory.live }
    let memory := memory.set newNode fun node => { node with next := (memory.nodes prevNode).next }
    let memory := memory.set prevNode fun node => { node with next := newNode }
    let memory := memory.set newNode fun node => { node with size := (memory.nodes prevNode).size - newSize }
    let memory := memory.set prevNode fun node => { node with size := newSize }
    let memory := memory.set newNode fun node =>
      { node with allocSt := (memory.nodes prevNode).allocSt + newSize <<< 12 }
    some (newNode, memory.set newNode fun node => { node with free := true })

structure Bisected (memory after : Memory) (prevNode newNode : Ptr) (newSize : BitVec 64) : Prop where
  notNull : newNode ≠ 0
  shrunk : newNode ≠ prevNode → after.nodes prevNode = { memory.nodes prevNode with size := newSize, next := newNode }
  made : newNode ≠ prevNode → after.nodes newNode =
    ⟨(Vmem.bisectNode (memory.nodes prevNode).toNode newSize).2, (memory.nodes prevNode).next⟩
  merged : newNode = prevNode → after.nodes newNode =
    ⟨⟨(memory.nodes prevNode).allocSt + newSize <<< 12, newSize, true⟩, newNode⟩
  elsewhere : ∀ node, node ≠ prevNode → node ≠ newNode → after.nodes node = memory.nodes node
  unused : newNode ∉ memory.live
  live : after.live = newNode :: memory.live

theorem bisect_node_bisected (prevNode newNode : Ptr) (newSize : BitVec 64) (memory after : Memory)
    (done : bisectNode kmalloc prevNode newSize memory = some (newNode, after)) :
    Bisected memory after prevNode newNode newSize := by
  simp only [bisectNode] at done
  split at done
  · cases done
  · rename_i notNull
    obtain ⟨rfl, rfl⟩ := Prod.mk.inj (Option.some.inj done)
    refine ⟨notNull, ?_, ?_, ?_, ?_, kmalloc.unused memory notNull, rfl⟩
    · intro apart
      simp [Ne.symm apart]
    · intro apart
      simp [apart, Ne.symm apart, Vmem.bisectNode]
    · intro same
      simp [same]
    · intro node notPrev notNew
      simp [notPrev, notNew]

def allocateFrom (nPages : BitVec 32) : Nat → Ptr → Memory → Option (Option Addr × Memory)
  | 0, _, _ => none
  | fuel + 1, cur, memory =>
      if cur = 0 then some (none, memory)
      else if !(memory.nodes cur).free then none
      else if (memory.nodes cur).size = nPages.setWidth 64 then
        some (some (memory.nodes cur).allocSt, memory.set cur fun node => { node with free := false })
      else if nPages.setWidth 64 < (memory.nodes cur).size then
        (bisectNode kmalloc cur (nPages.setWidth 64) memory).map fun (_, memory) =>
          let memory := memory.set cur fun node => { node with free := false }
          (some (memory.nodes cur).allocSt, memory)
      else allocateFrom nPages fuel (memory.nodes cur).next memory

def allocateRegion (fuel : Nat) (reg : RegDesc) (nPages : BitVec 32) (memory : Memory) : Option (Option Addr × Memory) :=
  allocateFrom kmalloc nPages fuel reg.list memory

def reserveNode (cur : Ptr) (nPages : BitVec 32) (memory : Memory) : Option Memory :=
  if nPages.setWidth 64 < (memory.nodes cur).size then
    (bisectNode kmalloc cur (nPages.setWidth 64) memory).map fun (nn, memory) =>
      memory.set nn fun node => { node with free := false }
  else some (memory.set cur fun node => { node with free := false })

def reserveCut (cur : Ptr) (whereAddr : Addr) (nPages : BitVec 32) (memory : Memory) : Option Memory :=
  if whereAddr < (memory.nodes cur).allocSt then
    (bisectNode kmalloc cur (((memory.nodes cur).allocSt - whereAddr) >>> 12) memory).bind fun (cur, memory) =>
      reserveNode kmalloc cur nPages memory
  else reserveNode kmalloc cur nPages memory

def reserveFrom (whereAddr : Addr) (nPages : BitVec 32) : Nat → Ptr → Memory → Option (Bool × Memory)
  | 0, _, _ => none
  | fuel + 1, cur, memory =>
      if cur = 0 then some (false, memory)
      else if !(memory.nodes cur).free then none
      else if fitsReserve (memory.nodes cur).toNode whereAddr nPages then
        (reserveCut kmalloc cur whereAddr nPages memory).map fun memory => (true, memory)
      else reserveFrom whereAddr nPages fuel (memory.nodes cur).next memory

def reserveRegion (fuel : Nat) (reg : RegDesc) (whereAddr : Addr) (nPages : BitVec 32) (memory : Memory) :
    Option (Bool × Memory) :=
  reserveFrom kmalloc whereAddr nPages fuel reg.list memory

end

def kfree (node : Ptr) (memory : Memory) : Memory := { memory with live := memory.live.erase node }

-- The size added and the node given back are those of the new successor, not of
-- the one that was linked past.
def mergeNext (cur : Ptr) (memory : Memory) : Option Memory :=
  if (memory.nodes cur).next = 0 then none
  else if (memory.nodes (memory.nodes cur).next).free then
    let memory := memory.set cur fun node => { node with next := (memory.nodes node.next).next }
    if (memory.nodes cur).next = 0 then none
    else
      let memory := memory.set cur fun node => { node with size := node.size + (memory.nodes node.next).size }
      some (kfree (memory.nodes cur).next memory)
  else some memory

def mergePrev (prev cur : Ptr) (memory : Memory) : Memory :=
  if prev ≠ 0 ∧ (memory.nodes prev).free then
    let memory := memory.set prev fun node => { node with next := (memory.nodes cur).next }
    let memory := memory.set prev fun node => { node with size := node.size + (memory.nodes cur).size }
    kfree cur memory
  else memory.set cur fun node => { node with free := true }

def freeFrom (whereAddr : Addr) : Nat → Ptr → Ptr → Memory → Option Memory
  | 0, _, _, _ => none
  | fuel + 1, prev, cur, memory =>
      if cur = 0 then some memory
      else if (memory.nodes cur).free then none
      else if (memory.nodes cur).allocSt = whereAddr then (mergeNext cur memory).map (mergePrev prev cur)
      else freeFrom whereAddr fuel cur (memory.nodes cur).next memory

def freeRegion (fuel : Nat) (reg : RegDesc) (whereAddr : Addr) (memory : Memory) : Option Memory :=
  freeFrom whereAddr fuel 0 reg.list memory

def hhStart : Addr := 0xFFFF800000000000

-- hh_reg with the memory its nodes are in. That reserve_region succeeds is not looked at.
def vmemInitialize (kmalloc : Kmalloc) (fuel : Nat) (memory : Memory) : Option (RegDesc × Memory) :=
  let newNode := kmalloc.answer memory
  if newNode = 0 then none
  else
    let hhReg : RegDesc := { regStart := hhStart, regSize := 0x800000000, list := newNode }
    let memory := { memory with mallocs := memory.mallocs + 1, live := newNode :: memory.live }
    let memory := memory.set newNode fun _ => { allocSt := hhReg.regStart, size := hhReg.regSize, free := true, next := 0 }
    (reserveRegion kmalloc fuel hhReg hhStart 512 memory).map fun (_, memory) => (hhReg, memory)

end Kraftwerk.Vmem.Linked
