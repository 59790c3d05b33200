import Mathlib.Algebra.Group.Nat.Defs

set_option autoImplicit false

-- The 4-level walk of the processor over page tables in physical memory.
namespace Kraftwerk.Paging

abbrev Addr := BitVec 64

abbrev Memory := Addr → BitVec 64

def present (entry : BitVec 64) : Bool := entry.getLsbD 0

-- The page size bit of a PDPT or PD entry, which is reserved in a PML4 entry.
def huge (entry : BitVec 64) : Bool := entry.getLsbD 7

def frame (entry : BitVec 64) : Addr := entry &&& 0x000FFFFFFFFFF000

def walkIndex (vaddr : Addr) (low : Nat) : BitVec 9 := vaddr.extractLsb' low 9

def entryAddr (table : Addr) (index : BitVec 9) : Addr := table + 8 * index.setWidth 64

def tableAt (mem : Memory) (table : Addr) (index : BitVec 9) : Option Addr :=
  if present (mem (entryAddr table index)) && !huge (mem (entryAddr table index)) then
    some (frame (mem (entryAddr table index)))
  else none

def pageAt (mem : Memory) (table : Addr) (index : BitVec 9) : Option Addr :=
  if present (mem (entryAddr table index)) then some (frame (mem (entryAddr table index))) else none

def hugePageAt (mem : Memory) (table : Addr) (index : BitVec 9) (pageBits : Addr) : Option Addr :=
  if present (mem (entryAddr table index)) && huge (mem (entryAddr table index)) then
    some (frame (mem (entryAddr table index)) &&& ~~~pageBits)
  else none

def pdptOf (mem : Memory) (pml4 vaddr : Addr) : Option Addr := tableAt mem pml4 (walkIndex vaddr 39)

def pdirOf (mem : Memory) (pml4 vaddr : Addr) : Option Addr :=
  (pdptOf mem pml4 vaddr).bind fun pdpt => tableAt mem pdpt (walkIndex vaddr 30)

def ptblOf (mem : Memory) (pml4 vaddr : Addr) : Option Addr :=
  (pdirOf mem pml4 vaddr).bind fun pdir => tableAt mem pdir (walkIndex vaddr 21)

-- The physical address of a virtual one; none is a page fault.
def walk (mem : Memory) (pml4 vaddr : Addr) : Option Addr :=
  match ptblOf mem pml4 vaddr with
  | some ptbl => (pageAt mem ptbl (walkIndex vaddr 12)).map fun page => page + (vaddr &&& 0xFFF)
  | none =>
      match pdirOf mem pml4 vaddr with
      | some pdir => (hugePageAt mem pdir (walkIndex vaddr 21) 0x1FFFFF).map fun page => page + (vaddr &&& 0x1FFFFF)
      | none =>
          (pdptOf mem pml4 vaddr).bind fun pdpt =>
            (hugePageAt mem pdpt (walkIndex vaddr 30) 0x3FFFFFFF).map fun page => page + (vaddr &&& 0x3FFFFFFF)

def pml4Entry (pml4 vaddr : Addr) : Addr := entryAddr pml4 (walkIndex vaddr 39)

def pdptEntry (mem : Memory) (pml4 vaddr : Addr) : Option Addr :=
  (pdptOf mem pml4 vaddr).map fun pdpt => entryAddr pdpt (walkIndex vaddr 30)

def pdirEntry (mem : Memory) (pml4 vaddr : Addr) : Option Addr :=
  (pdirOf mem pml4 vaddr).map fun pdir => entryAddr pdir (walkIndex vaddr 21)

def ptblEntry (mem : Memory) (pml4 vaddr : Addr) : Option Addr :=
  (ptblOf mem pml4 vaddr).map fun ptbl => entryAddr ptbl (walkIndex vaddr 12)

theorem page_at_of_table_at (mem : Memory) (table next : Addr) (index : BitVec 9)
    (pointed : tableAt mem table index = some next) : pageAt mem table index = some next := by
  unfold tableAt at pointed
  split at pointed
  · rename_i usable
    rw [pageAt, if_pos (Bool.and_eq_true_iff.mp usable).1]
    exact pointed
  · cases pointed

theorem walk_through (mem : Memory) (pml4 pdpt pdir ptbl page vaddr : Addr)
    (first : tableAt mem pml4 (walkIndex vaddr 39) = some pdpt) (second : tableAt mem pdpt (walkIndex vaddr 30) = some pdir)
    (third : tableAt mem pdir (walkIndex vaddr 21) = some ptbl) (last : tableAt mem ptbl (walkIndex vaddr 12) = some page) :
    walk mem pml4 vaddr = some (page + (vaddr &&& 0xFFF)) := by
  have table : ptblOf mem pml4 vaddr = some ptbl := by
    simp only [ptblOf, pdirOf, pdptOf, first, second, third, Option.bind_some]
  simp only [walk, table, page_at_of_table_at mem ptbl page _ last, Option.map_some]

end Kraftwerk.Paging
