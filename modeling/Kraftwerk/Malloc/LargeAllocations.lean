import Kraftwerk.Malloc.Kmalloc
import Kraftwerk.Vmem.RegionRuns

set_option autoImplicit false

-- kmalloc of more than 1024 bytes over the kernel region, and kfree of what it returns.
namespace Kraftwerk.Malloc

structure Kernel where
  heap : Heap
  region : Vmem.Region

-- kmalloc calls allocate_kern once, so its answer in this region is all that kmalloc sees of it.
-- The node that is cut off takes storage from the heap, and what the heap holds then is left open.
def kmallocPages (kernel : Kernel) (bytes flags : Nat) : Option (Kernel × Nat) :=
  (Vmem.allocateRegion kernel.region (BitVec.ofNat 32 (kernPages bytes))).bind fun (start, region) =>
    (kmalloc (fun _ _ => (start.getD 0).toNat) kernel.heap bytes flags).map fun (heap, allocation) =>
      (⟨heap, region⟩, allocation)

def kfreeKernel (kernel : Kernel) (allocation : Nat) : Kernel := { kernel with heap := kfree kernel.heap allocation }

def allocatedAt (region : Vmem.Region) (allocation : Nat) : Nat :=
  region.list.countP (fun node => !node.free && node.allocSt == BitVec.ofNat 64 allocation)

structure GivenBack (before after : Kernel) (allocation pages : Nat) : Prop where
  released : allocatedAt after.region allocation + 1 = allocatedAt before.region allocation
  free : Vmem.pageRange (BitVec.ofNat 64 allocation) pages ⊆ Vmem.pagesOf true after.region.list
  headers : ∀ page ∈ before.heap.pages, (∀ word < 4, after.heap.word (page + 8 * word) = before.heap.word (page + 8 * word)) ∧
    after.heap.chunkSize page = before.heap.chunkSize page ∧ after.heap.nAllocations page = before.heap.nAllocations page

theorem allocate_list_node (nPages : BitVec 32) (nodes after : List Vmem.Node) (start : Vmem.Addr)
    (done : Vmem.allocateList nPages nodes = some (some start, after)) :
    ∃ node ∈ after, node.free = false ∧ node.allocSt = start := by
  induction nodes generalizing after with
  | nil => cases done
  | cons cur rest ih =>
      rw [Vmem.allocateList] at done
      split at done
      · cases done
      split at done
      · obtain ⟨found, rfl⟩ := Prod.mk.inj (Option.some.inj done)
        exact ⟨_, List.mem_cons_self, rfl, Option.some.inj found⟩
      split at done
      · obtain ⟨found, rfl⟩ := Prod.mk.inj (Option.some.inj done)
        exact ⟨_, List.mem_cons_self, rfl, Option.some.inj found⟩
      · obtain ⟨⟨found, tail⟩, tailEq, same⟩ := Option.map_eq_some_iff.mp done
        obtain ⟨rfl, rfl⟩ := Prod.mk.inj same
        obtain ⟨node, member, isNode⟩ := ih tail tailEq
        exact ⟨node, List.mem_cons_of_mem cur member, isNode⟩

theorem kmalloc_pages_taken (kernel later : Kernel) (bytes flags allocation : Nat) (large : 1024 < bytes)
    (served : kmallocPages kernel bytes flags = some (later, allocation)) (some : allocation ≠ 0) :
    0 < allocatedAt later.region allocation ∧
      Vmem.pageRange (BitVec.ofNat 64 allocation) (kernPages bytes) ⊆ Vmem.pagesOf false later.region.list := by
  obtain ⟨⟨start, region⟩, allocated, rest⟩ := Option.bind_eq_some_iff.mp served
  obtain ⟨⟨found, list⟩, listDone, same⟩ := Option.map_eq_some_iff.mp allocated
  obtain ⟨rfl, rfl⟩ := Prod.mk.inj same
  dsimp only at rest
  rw [kmalloc_large _ _ _ _ large, Option.map_some, allocateKern] at rest
  obtain ⟨rfl, rfl⟩ := Prod.mk.inj (Option.some.inj rest)
  cases found with
  | none => exact absurd rfl some
  | some start =>
      have address : BitVec.ofNat 64 ((Option.some start).getD 0).toNat = start := by
        rw [Option.getD_some, BitVec.ofNat_toNat, BitVec.setWidth_eq]
      have pages : (BitVec.ofNat 32 (kernPages bytes)).toNat = kernPages bytes := by
        rw [BitVec.toNat_ofNat, kernPages, Nat.mod_mod]
      obtain ⟨node, member, used, begins⟩ := allocate_list_node _ _ _ start listDone
      have taken := (Vmem.allocate_list_cut _ _ _ _ listDone).2 start rfl
      rw [allocatedAt, address]
      refine ⟨List.countP_pos_iff.mpr ⟨node, member, ?_⟩, ?_⟩
      · rw [used, begins, beq_self_eq_true]
        rfl
      · have isTaken := taken.isTaken
        rwa [pages] at isTaken

-- kfree has no call to free_kern: whatever the heap holds by then, the node stays allocated.
theorem large_not_given_back (kernel later : Kernel) (bytes flags allocation : Nat) (large : 1024 < bytes)
    (served : kmallocPages kernel bytes flags = some (later, allocation)) (some : allocation ≠ 0) (stored : Heap) :
    ¬ GivenBack ⟨stored, later.region⟩ (kfreeKernel ⟨stored, later.region⟩ allocation) allocation (kernPages bytes) ∧
      0 < allocatedAt (kfreeKernel ⟨stored, later.region⟩ allocation).region allocation ∧
      Vmem.pageRange (BitVec.ofNat 64 allocation) (kernPages bytes) ⊆
        Vmem.pagesOf false (kfreeKernel ⟨stored, later.region⟩ allocation).region.list := by
  have taken := kmalloc_pages_taken kernel later bytes flags allocation large served some
  refine ⟨fun back => ?_, taken⟩
  have fewer : allocatedAt later.region allocation + 1 = allocatedAt later.region allocation := back.released
  omega

def kernelStart : Kernel := ⟨boot 0x100000 (fun _ => 0) (fun _ => 0) (fun _ => 0), Vmem.kernelRegion⟩

def kernelServed : Kernel :=
  ⟨{ kernelStart.heap with mapped := [(0xFFFF800000000000, 8192)] },
    { Vmem.kernelRegion with list := [⟨0xFFFF800000000000, 2, false⟩, ⟨0xFFFF800000002000, 0x7FFFFFFFE, true⟩] }⟩

theorem kernel_served : kmallocPages kernelStart 8192 0 = some (kernelServed, 0xFFFF800000000000) := by
  have pages : Vmem.allocateRegion kernelStart.region (BitVec.ofNat 32 (kernPages 8192)) =
      some (some 0xFFFF800000000000, kernelServed.region) := by decide
  rw [kmallocPages, pages, Option.bind_some]
  dsimp only
  rw [kmalloc_large _ _ _ _ (by decide)]
  rfl

theorem large_not_given_back_served :
    ¬ GivenBack kernelServed (kfreeKernel kernelServed 0xFFFF800000000000) 0xFFFF800000000000 (kernPages 8192) ∧
      0 < allocatedAt (kfreeKernel kernelServed 0xFFFF800000000000).region 0xFFFF800000000000 ∧
      Vmem.pageRange (BitVec.ofNat 64 0xFFFF800000000000) (kernPages 8192) ⊆
        Vmem.pagesOf false (kfreeKernel kernelServed 0xFFFF800000000000).region.list :=
  large_not_given_back kernelStart kernelServed 8192 0 0xFFFF800000000000 (by decide) kernel_served (by decide) kernelServed.heap

theorem kmalloc_8192_kept :
    kmallocPages kernelStart 8192 0 = some (kernelServed, 0xFFFF800000000000) ∧
      ¬ GivenBack kernelServed (kfreeKernel kernelServed 0xFFFF800000000000) 0xFFFF800000000000 (kernPages 8192) := by
  refine ⟨kernel_served, fun back => ?_⟩
  exact absurd back.released (by decide)

end Kraftwerk.Malloc
