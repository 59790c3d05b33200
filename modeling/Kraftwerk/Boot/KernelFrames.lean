import Kraftwerk.Boot.MemoryMap
import Kraftwerk.Pmem.BuddyRuns

set_option autoImplicit false

namespace Kraftwerk.Boot

open Kraftwerk.Pmem Runs

-- KERNEL_LMA of linker.ld; kernel_end_phys is known only to the linker.
def kernelLma : Nat := 0x100000

def kernelImage (kernelEndPhys : Nat) : Set Nat := {byte | kernelLma ≤ byte ∧ byte < kernelEndPhys}

-- The region from the boundary below the block that align_block and splitting can
-- lead back to, up to the end of the block, holds nothing of the kernel.
def Clear (kernelEndPhys : Nat) (block : Block) : Prop :=
  kernelEndPhys ≤ kernelLma ∨ kernelEndPhys ≤ (alignBlock block.2 block.1).toNat ∨
    block.2.toNat + 2 ^ (block.1 + 12) ≤ kernelLma

-- Every block that initialize cuts from a usable entry of the map.
def ClearMap (kernelEndPhys : Nat) (entries : List MultibootMmap) : Prop :=
  ∀ entry ∈ entries, usable entry → ∀ j, j < nBlocks (toRange entry) → Clear kernelEndPhys (initBlock (toRange entry) j)

def FreesOutstanding (state : State) : Call → Prop
  | .allocate _ => True
  | .free start nPages => ⟨start, nPages⟩ ∈ state.outstanding

-- More than 2^ALLOC_MAX_ORDER pages give NULL, which is no block.
def SparesKernel (kernelEndPhys : Nat) (state : State) : Call → Prop
  | .allocate nPages => nPages ≤ 2 ^ allocMaxOrder → ∀ start lists, allocate nPages state.lists = some (start, lists) →
      Disjoint (bytes (getAllocOrder nPages, start)) (kernelImage kernelEndPhys)
  | .free _ _ => True

structure KernelApart (kernelEndPhys : Nat) (state : State) : Prop where
  free : AllListed (Clear kernelEndPhys) state.lists
  taken : ∀ allocation ∈ state.outstanding, allocation.nPages ≤ 2 ^ allocMaxOrder ∧
    Clear kernelEndPhys (allocationBlock allocation)

theorem clear_disjoint (kernelEndPhys : Nat) (block : Block) (small : block.1 ≤ allocMaxOrder)
    (clear : Clear kernelEndPhys block) : Disjoint (bytes block) (kernelImage kernelEndPhys) := by
  refine Set.disjoint_left.mpr (fun byte inBlock inKernel => ?_)
  have below := align_block_le block.2 block.1 small
  simp only [bytes, kernelImage, Clear, Set.mem_ofPred_eq] at inBlock inKernel clear
  omega

theorem buddy_same_parent (start : Addr) (order : Nat) (small : order ≤ allocMaxOrder) :
    (start ^^^ intBit (order + 12)).toNat / 2 ^ (order + 13) = start.toNat / 2 ^ (order + 13) := by
  have parent := congrArg Dyadic.parent (buddy_dyadic start order small)
  rw [Dyadic.parent_sibling, dyadic_parent, dyadic_parent] at parent
  exact congrArg Dyadic.Block.index parent

theorem buddy_to_nat_le (start : Addr) (order : Nat) (small : order ≤ allocMaxOrder) :
    (start ^^^ intBit (order + 12)).toNat ≤ start.toNat + 2 ^ (order + 12) := by
  have positive := Nat.two_pow_pos (order + 12)
  have bit := int_bit_to_nat (order + 12) (by unfold allocMaxOrder at small; omega)
  have low : (start ^^^ intBit (order + 12)).toNat % 2 ^ (order + 12) = start.toNat % 2 ^ (order + 12) := by
    rw [BitVec.toNat_xor, bit, Nat.xor_mod_two_pow, Nat.mod_self, Nat.xor_zero]
  have high : (start ^^^ intBit (order + 12)).toNat / 2 ^ (order + 12) ≤ start.toNat / 2 ^ (order + 12) + 1 := by
    have index := congrArg Dyadic.Block.index (buddy_dyadic start order small)
    simp only [dyadic] at index
    rw [index]
    exact Dyadic.sibling_index_le _
  have joined := Nat.div_add_mod (start ^^^ intBit (order + 12)).toNat (2 ^ (order + 12))
  have whole := Nat.div_add_mod start.toNat (2 ^ (order + 12))
  have scaled := Nat.mul_le_mul_left (2 ^ (order + 12)) high
  rw [Nat.mul_add, Nat.mul_one] at scaled
  omega

theorem align_block_mono_order (start : Addr) (low high : Nat) (le : low ≤ high) (small : high ≤ allocMaxOrder) :
    (alignBlock start high).toNat ≤ (alignBlock start low).toNat := by
  rw [← align_block_align_block start low high le small]
  exact align_block_le _ high small

theorem clear_split_closed (kernelEndPhys : Nat) : SplitClosed (Clear kernelEndPhys) := by
  intro order start small clear
  have positive := Nat.two_pow_pos (order + 12)
  have size := next_order_size order
  have same := align_block_mono_order start order (order + 1) (by omega) small
  have buddy := align_block_mono_order (start ^^^ intBit (order + 12)) order (order + 1) (by omega) small
  have parent : (alignBlock (start ^^^ intBit (order + 12)) (order + 1)).toNat = (alignBlock start (order + 1)).toNat := by
    rw [align_block_to_nat _ _ small, align_block_to_nat _ _ small, show order + 1 + 12 = order + 13 by omega,
      buddy_same_parent start order (Nat.le_of_lt small)]
  have reach := buddy_to_nat_le start order (Nat.le_of_lt small)
  simp only [Clear] at clear ⊢
  omega

theorem clear_placed (kernelEndPhys : Nat) (start : Addr) (order : Nat) (small : order ≤ allocMaxOrder)
    (clear : Clear kernelEndPhys (order, start)) : Clear kernelEndPhys (order, placed start order) := by
  unfold placed
  split
  · have below := align_block_le start order small
    have again := align_block_align_block start order order (Nat.le_refl _) small
    simp only [Clear, again] at clear ⊢
    omega
  · exact clear

theorem clear_merge_closed (kernelEndPhys : Nat) : MergeClosed (Clear kernelEndPhys) := by
  intro order start small aligned clear buddyClear
  have size := next_order_size order
  have halves := buddy_halves start order small aligned
  have self := align_block_of_aligned start order (Nat.le_of_lt small) aligned
  have buddySelf := align_block_of_aligned _ order (Nat.le_of_lt small) (buddy_aligned start order (Nat.le_of_lt small) aligned)
  have again := align_block_align_block start (order + 1) (order + 1) (Nat.le_refl _) small
  have top : order + 1 = allocMaxOrder → kernelLma < 2 ^ (order + 12) := by
    intro last
    obtain rfl : order = 17 := by unfold allocMaxOrder at last; omega
    decide
  simp only [Clear, self, buddySelf] at clear buddyClear
  unfold placed
  split
  · simp only [Clear, again]
    omega
  · have above := top (by omega)
    simp only [Clear]
    omega

theorem kernel_apart_step (kernelEndPhys : Nat) (state : State) (call : Call) (next : State) (apart : KernelApart kernelEndPhys state)
    (frees : FreesOutstanding state call) (stepped : step state call = some next) : KernelApart kernelEndPhys next := by
  cases call with
  | allocate nPages =>
      obtain ⟨⟨start, lists⟩, done, rfl⟩ := Option.map_eq_some_iff.mp stepped
      by_cases many : 2 ^ allocMaxOrder < nPages
      · simp only [allocate, if_pos many, Option.some.injEq, Prod.mk.injEq] at done
        obtain ⟨rfl, rfl⟩ := done
        simp only [if_pos many]
        exact apart
      · obtain ⟨free, taken⟩ := allocate_all (Clear kernelEndPhys) (clear_split_closed kernelEndPhys) nPages state.lists lists
          start (by omega) apart.free done
        simp only [if_neg many]
        refine ⟨free, ?_⟩
        simp only [List.forall_mem_cons]
        exact ⟨⟨by omega, taken⟩, apart.taken⟩
  | free start nPages =>
      obtain ⟨lists, done, rfl⟩ := Option.map_eq_some_iff.mp stepped
      obtain ⟨fits, clear⟩ := apart.taken ⟨start, nPages⟩ frees
      have small := get_alloc_order_le nPages fits
      simp only [free, addFreeList, if_neg (Nat.not_lt.mpr small), Option.some.injEq] at done
      subst done
      refine ⟨?_, fun allocation member => apart.taken allocation (List.mem_of_mem_erase member)⟩
      apply add_free_list_all _ (clear_merge_closed kernelEndPhys) _ _ _ _ (by omega) apart.free
      exact clear_placed kernelEndPhys start _ small clear

theorem kernel_apart_spares (kernelEndPhys : Nat) (state : State) (call : Call) (apart : KernelApart kernelEndPhys state) :
    SparesKernel kernelEndPhys state call := by
  cases call with
  | allocate nPages =>
      intro fits start lists done
      have taken := (allocate_all (Clear kernelEndPhys) (clear_split_closed kernelEndPhys) nPages state.lists lists
        start fits apart.free done).2
      exact clear_disjoint kernelEndPhys _ (get_alloc_order_le nPages fits) taken
  | free start nPages => trivial

theorem kernel_apart_initial (kernelEndPhys : Nat) (memory : Memory) (info : MultibootInfo) (fuel : Nat)
    (entries : List MultibootMmap) (ranges : List BootMmap)
    (walked : mmapEntries memory info fuel info.mmapAddr = some entries)
    (collected : kernelInitRanges memory info fuel = some ranges) (clear : ClearMap kernelEndPhys entries) :
    KernelApart kernelEndPhys ⟨pmemInitialize ranges, []⟩ := by
  rw [kernel_init_ranges_entries, walked, Option.map_some, Option.some.injEq] at collected
  subst collected
  refine ⟨pmem_initialize_all _ _ (fun range member => ?_), by simp⟩
  obtain ⟨entry, entryMember, rfl⟩ := List.mem_map.mp member
  obtain ⟨present, use⟩ := List.mem_filter.mp entryMember
  exact clear entry present use

theorem kernel_frames_spared (kernelEndPhys : Nat) (memory : Memory) (info : MultibootInfo) (fuel : Nat)
    (entries : List MultibootMmap) (ranges : List BootMmap)
    (walked : mmapEntries memory info fuel info.mmapAddr = some entries)
    (collected : kernelInitRanges memory info fuel = some ranges) (clear : ClearMap kernelEndPhys entries)
    (calls : List Call) (frees : Along step FreesOutstanding ⟨pmemInitialize ranges, []⟩ calls) :
    Along step (SparesKernel kernelEndPhys) ⟨pmemInitialize ranges, []⟩ calls :=
  along_of_invariant step FreesOutstanding (SparesKernel kernelEndPhys) (KernelApart kernelEndPhys)
    (kernel_apart_step kernelEndPhys) (fun state call apart _ => kernel_apart_spares kernelEndPhys state call apart) _ calls
    (kernel_apart_initial kernelEndPhys memory info fuel entries ranges walked collected clear) frees

def oneEntry (baseAddr length : BitVec 64) : Memory := fun _ => ⟨20, baseAddr, length, 1⟩

def oneEntryInfo : MultibootInfo := ⟨24, 0x9000⟩

theorem high_memory_clear : ClearMap 0x180000 [⟨20, 0x1000000, 0x1000000, 1⟩] := by
  intro entry member _ j below
  obtain rfl := List.mem_singleton.mp member
  obtain rfl : j = 0 := by
    have one : nBlocks (toRange ⟨20, 0x1000000, 0x1000000, 1⟩) = 1 := by decide
    omega
  exact .inr (.inl (by decide))

theorem high_memory_kernel_spared :
    Along step (SparesKernel 0x180000) ⟨pmemInitialize [⟨0x1000000, 0x1000000⟩], []⟩ [.allocate 1, .allocate 4096] :=
  kernel_frames_spared 0x180000 (oneEntry 0x1000000 0x1000000) oneEntryInfo 2 _ _ (by decide) (by decide) high_memory_clear _
    ⟨trivial, fun _ _ => ⟨trivial, fun _ _ => trivial⟩⟩

-- The range of a machine with 128 MiB starts at KERNEL_LMA, and nothing takes
-- the kernel out of it: the first large request gets the kernel itself.
theorem kernel_handed_out :
    kernelInitRanges (oneEntry 0x100000 0x7EE0000) oneEntryInfo 2 = some [⟨0x100000, 0x7EE0000⟩] ∧
      Along step FreesOutstanding ⟨pmemInitialize [⟨0x100000, 0x7EE0000⟩], []⟩ [.allocate 16384] ∧
      ∀ kernelEndPhys, kernelLma < kernelEndPhys →
        ¬ Along step (SparesKernel kernelEndPhys) ⟨pmemInitialize [⟨0x100000, 0x7EE0000⟩], []⟩ [.allocate 16384] := by
  refine ⟨by decide, ⟨trivial, fun _ _ => trivial⟩, fun kernelEndPhys nonempty along => ?_⟩
  have taken : (allocate 16384 (pmemInitialize [⟨0x100000, 0x7EE0000⟩])).map Prod.fst = some 0x100000 := by decide
  obtain ⟨⟨start, lists⟩, done, rfl⟩ := Option.map_eq_some_iff.mp taken
  have apart := along.1 (by decide) _ lists done
  refine Set.disjoint_left.mp apart (bytes_start (getAllocOrder 16384, 0x100000)) ?_
  exact ⟨Nat.le_refl _, nonempty⟩

end Kraftwerk.Boot
