import Kraftwerk.Paging.Window

set_option autoImplicit false

namespace Kraftwerk.Paging

theorem walk_has_indices (mem : Memory) (root vaddr first second third page : Addr) (pml4 pdpt pdir ptbl index : BitVec 9)
    (has : HasIndices vaddr pml4 pdpt pdir ptbl (8 * index.toNat)) (firstAt : tableAt mem root pml4 = some first)
    (secondAt : tableAt mem first pdpt = some second) (thirdAt : tableAt mem second pdir = some third)
    (pageAt : tableAt mem third ptbl = some page) : walk mem root vaddr = some (entryAddr page index) := by
  obtain ⟨pml4Eq, pdptEq, pdirEq, ptblEq, offset⟩ := has_indices_walk vaddr pml4 pdpt pdir ptbl _ has
  have bound := index.isLt
  have sameOffset : vaddr &&& 0xFFF = 8 * index.setWidth 64 := by
    apply BitVec.eq_of_toNat_eq
    have product : (8#64 * index.setWidth 64).toNat = 8 * index.toNat := by
      rw [BitVec.toNat_mul, BitVec.toNat_setWidth, BitVec.toNat_ofNat]
      omega
    exact offset.trans product.symm
  rw [entryAddr, ← sameOffset]
  apply walk_through mem root first second third page vaddr
  · rw [pml4Eq, firstAt]
  · rw [pdptEq, secondAt]
  · rw [pdirEq, thirdAt]
  · rw [ptblEq, pageAt]

theorem pml4_window (mem : Memory) (root vaddr : Addr) (recursive : tableAt mem root 510 = some root) :
    walk mem root (slot memPml4tAddr (memPml4Index vaddr)) = some (pml4Entry root vaddr) :=
  walk_has_indices mem root _ root root root root _ _ _ _ _ (pml4_slot_indices vaddr) recursive recursive recursive recursive

theorem pdpt_window (mem : Memory) (root vaddr entry : Addr) (recursive : tableAt mem root 510 = some root)
    (owned : pdptEntry mem root vaddr = some entry) :
    walk mem root (slot (memPdptAddr vaddr) (memPdptIndex vaddr)) = some entry := by
  obtain ⟨pdpt, pdptEq, rfl⟩ := Option.map_eq_some_iff.mp owned
  exact walk_has_indices mem root _ root root root pdpt _ _ _ _ _ (pdpt_slot_indices vaddr) recursive recursive recursive pdptEq

theorem pdir_window (mem : Memory) (root vaddr entry : Addr) (recursive : tableAt mem root 510 = some root)
    (owned : pdirEntry mem root vaddr = some entry) :
    walk mem root (slot (memPdirAddr vaddr) (memPdirIndex vaddr)) = some entry := by
  obtain ⟨pdir, pdirEq, rfl⟩ := Option.map_eq_some_iff.mp owned
  obtain ⟨pdpt, pdptEq, pdirAt⟩ := Option.bind_eq_some_iff.mp pdirEq
  exact walk_has_indices mem root _ root root pdpt pdir _ _ _ _ _ (pdir_slot_indices vaddr) recursive recursive pdptEq pdirAt

theorem ptbl_window (mem : Memory) (root vaddr entry : Addr) (recursive : tableAt mem root 510 = some root)
    (owned : ptblEntry mem root vaddr = some entry) :
    walk mem root (slot (memPtblAddr vaddr) (memPtblIndex vaddr)) = some entry := by
  obtain ⟨ptbl, ptblEq, rfl⟩ := Option.map_eq_some_iff.mp owned
  obtain ⟨pdir, pdirEq, ptblAt⟩ := Option.bind_eq_some_iff.mp ptblEq
  obtain ⟨pdpt, pdptEq, pdirAt⟩ := Option.bind_eq_some_iff.mp pdirEq
  exact walk_has_indices mem root _ root pdpt pdir ptbl _ _ _ _ _ (ptbl_slot_indices vaddr) recursive pdptEq pdirAt ptblAt

-- Each window needs only the levels above it: an entry exists when the tables
-- that lead to it are present.
theorem recursive_window (mem : Memory) (root vaddr : Addr) (recursive : tableAt mem root 510 = some root) :
    walk mem root (slot memPml4tAddr (memPml4Index vaddr)) = some (pml4Entry root vaddr) ∧
    (∀ entry, pdptEntry mem root vaddr = some entry →
      walk mem root (slot (memPdptAddr vaddr) (memPdptIndex vaddr)) = some entry) ∧
    (∀ entry, pdirEntry mem root vaddr = some entry →
      walk mem root (slot (memPdirAddr vaddr) (memPdirIndex vaddr)) = some entry) ∧
    (∀ entry, ptblEntry mem root vaddr = some entry →
      walk mem root (slot (memPtblAddr vaddr) (memPtblIndex vaddr)) = some entry) :=
  ⟨pml4_window mem root vaddr recursive, fun entry => pdpt_window mem root vaddr entry recursive,
    fun entry => pdir_window mem root vaddr entry recursive, fun entry => ptbl_window mem root vaddr entry recursive⟩

-- BootPML4T at 0x10A000 with the tables that map address 0, as 64_init.s writes them.
def bootTables : Memory := fun addr =>
  if addr = 0x10A000 then 0x108001
  else if addr = 0x10A000 + 8 * 510 then 0x10A001
  else if addr = 0x108000 then 0x106001
  else if addr = 0x106000 then 0x101001
  else 0

theorem boot_tables_window :
    walk bootTables 0x10A000 (slot (memPtblAddr 0x5123) (memPtblIndex 0x5123)) = some 0x101028 :=
  (recursive_window bootTables 0x10A000 0x5123 (by decide)).2.2.2 0x101028 (by decide)

end Kraftwerk.Paging
