import Kraftwerk.Paging.Walk

set_option autoImplicit false

-- The MEM_ macros of os/include/arch/x86-64/page_manip.h.
namespace Kraftwerk.Paging

def memPml4Index (vaddr : Addr) : BitVec 64 := (vaddr >>> 39) &&& 0x1FF#64

def memPdptIndex (vaddr : Addr) : BitVec 64 := (vaddr >>> 30) &&& 0x1FF#64

def memPdirIndex (vaddr : Addr) : BitVec 64 := (vaddr >>> 21) &&& 0x1FF#64

def memPtblIndex (vaddr : Addr) : BitVec 64 := (vaddr >>> 12) &&& 0x1FF#64

def memRecursiveSlot : BitVec 64 := 510

def memRecursivePtbls : Addr := 0xFFFF000000000000 ||| (memRecursiveSlot <<< 39)

def memRecursivePdirs : Addr := memRecursivePtbls ||| (memRecursiveSlot <<< 30)

def memRecursivePdpts : Addr := memRecursivePdirs ||| (memRecursiveSlot <<< 21)

def memRecursivePml4t : Addr := memRecursivePdpts ||| (memRecursiveSlot <<< 12)

def memPml4tAddr : Addr := memRecursivePml4t

def memPdptAddr (vaddr : Addr) : Addr := memRecursivePdpts ||| ((vaddr >>> 27) &&& 0x00001FF000#64)

def memPdirAddr (vaddr : Addr) : Addr := memRecursivePdirs ||| ((vaddr >>> 18) &&& 0x003FFFF000#64)

def memPtblAddr (vaddr : Addr) : Addr := memRecursivePtbls ||| ((vaddr >>> 9) &&& 0x7FFFFFF000#64)

-- Indexing a uint64_t pointer.
def slot (table : Addr) (index : BitVec 64) : Addr := table + 8 * index

theorem walk_index_to_nat (vaddr : Addr) (low : Nat) : (walkIndex vaddr low).toNat = vaddr.toNat / 2 ^ low % 512 := by
  rw [walkIndex, BitVec.extractLsb'_toNat, Nat.shiftRight_eq_div_pow]

theorem index_to_nat (vaddr : Addr) (low : Nat) : ((vaddr >>> low) &&& 0x1FF#64).toNat = vaddr.toNat / 2 ^ low % 512 := by
  rw [BitVec.toNat_and, BitVec.toNat_ushiftRight, Nat.shiftRight_eq_div_pow]
  exact Nat.and_two_pow_sub_one_eq_mod _ 9

-- Masking off the page bits after a shift leaves a multiple of the page size.
theorem masked_to_nat (vaddr : Addr) (shift width : Nat) (mask : BitVec 64) (maskEq : mask.toNat = (2 ^ width - 1) <<< 12) :
    ((vaddr >>> shift) &&& mask).toNat = vaddr.toNat / 2 ^ (shift + 12) % 2 ^ width * 4096 := by
  rw [BitVec.toNat_and, BitVec.toNat_ushiftRight, maskEq, Nat.shiftRight_eq_div_pow, Nat.pow_add,
    ← Nat.div_div_eq_div_mul, ← Nat.and_two_pow_sub_one_eq_mod, show (4096 : Nat) = 2 ^ 12 by rfl, ← Nat.shiftLeft_eq,
    ← Nat.shiftRight_eq_div_pow _ 12]
  apply Nat.eq_of_testBit_eq
  intro i
  simp only [Nat.testBit_and, Nat.testBit_shiftLeft, Nat.testBit_shiftRight]
  by_cases low : 12 ≤ i
  · simp only [low, decide_true, Bool.true_and, Nat.add_sub_cancel' low]
  · simp only [low, decide_false, Bool.false_and, Bool.and_false]

theorem or_low_to_nat (base offset : Addr) (bits top : Nat) (baseEq : base.toNat = 2 ^ bits * top)
    (small : offset.toNat < 2 ^ bits) : (base ||| offset).toNat = base.toNat + offset.toNat := by
  rw [BitVec.toNat_or, baseEq, Nat.two_pow_add_eq_or_of_lt small]

theorem slot_to_nat (table : Addr) (index : BitVec 64) (fits : table.toNat + 8 * index.toNat < 2 ^ 64) :
    (slot table index).toNat = table.toNat + 8 * index.toNat := by
  have product : (8#64 * index).toNat = 8 * index.toNat := by
    rw [BitVec.toNat_mul, BitVec.toNat_ofNat]
    exact Nat.mod_eq_of_lt (by omega)
  rw [slot, BitVec.toNat_add]
  exact (congrArg (fun offset => (table.toNat + offset) % 2 ^ 64) product).trans (Nat.mod_eq_of_lt fits)

-- What the three MEM_..._ADDR macros with an argument have in common.
theorem window_slot_to_nat (vaddr base mask : Addr) (shift width indexLow top : Nat)
    (maskEq : mask.toNat = (2 ^ width - 1) <<< 12) (baseEq : base.toNat = 2 ^ (width + 12) * top)
    (fits : base.toNat + 2 ^ (width + 12) ≤ 2 ^ 64) :
    (slot (base ||| ((vaddr >>> shift) &&& mask)) ((vaddr >>> indexLow) &&& 0x1FF#64)).toNat =
      base.toNat + vaddr.toNat / 2 ^ (shift + 12) % 2 ^ width * 4096 + 8 * (vaddr.toNat / 2 ^ indexLow % 512) := by
  have masked := masked_to_nat vaddr shift width mask maskEq
  have size : 2 ^ (width + 12) = 2 ^ width * 4096 := Nat.pow_add 2 width 12
  have page : vaddr.toNat / 2 ^ (shift + 12) % 2 ^ width < 2 ^ width := Nat.mod_lt _ (Nat.two_pow_pos width)
  have index : vaddr.toNat / 2 ^ indexLow % 512 < 512 := Nat.mod_lt _ (by decide)
  have joined := or_low_to_nat base ((vaddr >>> shift) &&& mask) (width + 12) top baseEq (by rw [masked, size]; omega)
  rw [slot_to_nat, joined, masked, index_to_nat]
  rw [joined, masked, index_to_nat]
  omega

-- The upper half address with these four table indices and this page offset.
structure HasIndices (vaddr : Addr) (pml4 pdpt pdir ptbl : BitVec 9) (offset : Nat) : Prop where
  inPage : offset < 4096
  split : vaddr.toNat = 0xFFFF000000000000 + pml4.toNat * 2 ^ 39 + pdpt.toNat * 2 ^ 30 + pdir.toNat * 2 ^ 21 +
    ptbl.toNat * 2 ^ 12 + offset

theorem has_indices_walk (vaddr : Addr) (pml4 pdpt pdir ptbl : BitVec 9) (offset : Nat)
    (has : HasIndices vaddr pml4 pdpt pdir ptbl offset) :
    walkIndex vaddr 39 = pml4 ∧ walkIndex vaddr 30 = pdpt ∧ walkIndex vaddr 21 = pdir ∧ walkIndex vaddr 12 = ptbl ∧
      (vaddr &&& 0xFFF).toNat = offset := by
  obtain ⟨inPage, split⟩ := has
  have boundPml4 := pml4.isLt
  have boundPdpt := pdpt.isLt
  have boundPdir := pdir.isLt
  have boundPtbl := ptbl.isLt
  refine ⟨?_, ?_, ?_, ?_, ?_⟩
  · apply BitVec.eq_of_toNat_eq
    rw [walk_index_to_nat, split]
    omega
  · apply BitVec.eq_of_toNat_eq
    rw [walk_index_to_nat, split]
    omega
  · apply BitVec.eq_of_toNat_eq
    rw [walk_index_to_nat, split]
    omega
  · apply BitVec.eq_of_toNat_eq
    rw [walk_index_to_nat, split]
    omega
  · have masked : (vaddr &&& 0xFFF).toNat = vaddr.toNat % 2 ^ 12 := by
      rw [BitVec.toNat_and]
      exact Nat.and_two_pow_sub_one_eq_mod _ 12
    rw [masked, split]
    omega

theorem recursive_index : (510 : BitVec 9).toNat = 510 := rfl

theorem ptbl_slot_indices (vaddr : Addr) :
    HasIndices (slot (memPtblAddr vaddr) (memPtblIndex vaddr)) 510 (walkIndex vaddr 39) (walkIndex vaddr 30)
      (walkIndex vaddr 21) (8 * (walkIndex vaddr 12).toNat) := by
  have base : memRecursivePtbls.toNat = 0xFFFFFF0000000000 := by decide
  have whole := window_slot_to_nat vaddr memRecursivePtbls 0x7FFFFFF000#64 9 27 12 0x1FFFFFE (by decide) (by decide)
    (by decide)
  have recursive := recursive_index
  have index39 := walk_index_to_nat vaddr 39
  have index30 := walk_index_to_nat vaddr 30
  have index21 := walk_index_to_nat vaddr 21
  have index12 := walk_index_to_nat vaddr 12
  refine ⟨by omega, ?_⟩
  rw [memPtblAddr, memPtblIndex, whole, base]
  omega

theorem pdir_slot_indices (vaddr : Addr) :
    HasIndices (slot (memPdirAddr vaddr) (memPdirIndex vaddr)) 510 510 (walkIndex vaddr 39) (walkIndex vaddr 30)
      (8 * (walkIndex vaddr 21).toNat) := by
  have base : memRecursivePdirs.toNat = 0xFFFFFF7F80000000 := by decide
  have whole := window_slot_to_nat vaddr memRecursivePdirs 0x003FFFF000#64 18 18 21 0x3FFFFFDFE (by decide) (by decide)
    (by decide)
  have recursive := recursive_index
  have index39 := walk_index_to_nat vaddr 39
  have index30 := walk_index_to_nat vaddr 30
  have index21 := walk_index_to_nat vaddr 21
  refine ⟨by omega, ?_⟩
  rw [memPdirAddr, memPdirIndex, whole, base]
  omega

theorem pdpt_slot_indices (vaddr : Addr) :
    HasIndices (slot (memPdptAddr vaddr) (memPdptIndex vaddr)) 510 510 510 (walkIndex vaddr 39)
      (8 * (walkIndex vaddr 30).toNat) := by
  have base : memRecursivePdpts.toNat = 0xFFFFFF7FBFC00000 := by decide
  have whole := window_slot_to_nat vaddr memRecursivePdpts 0x00001FF000#64 27 9 30 0x7FFFFFBFDFE (by decide) (by decide)
    (by decide)
  have recursive := recursive_index
  have index39 := walk_index_to_nat vaddr 39
  have index30 := walk_index_to_nat vaddr 30
  refine ⟨by omega, ?_⟩
  rw [memPdptAddr, memPdptIndex, whole, base]
  omega

theorem pml4_slot_indices (vaddr : Addr) :
    HasIndices (slot memPml4tAddr (memPml4Index vaddr)) 510 510 510 510 (8 * (walkIndex vaddr 39).toNat) := by
  have base : memPml4tAddr.toNat = 0xFFFFFF7FBFDFE000 := by decide
  have index := index_to_nat vaddr 39
  have whole := slot_to_nat memPml4tAddr (memPml4Index vaddr) (by rw [base, memPml4Index, index]; omega)
  have recursive := recursive_index
  have index39 := walk_index_to_nat vaddr 39
  refine ⟨by omega, ?_⟩
  rw [whole, base, memPml4Index, index]
  omega

end Kraftwerk.Paging
