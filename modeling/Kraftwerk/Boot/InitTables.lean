import Kraftwerk.Boot.KernelFrames
import Kraftwerk.Paging.AddressSpace

set_option autoImplicit false

-- The page tables of os/boot/x86-64/64_init.s, and what they map where kernel_init is entered.
namespace Kraftwerk.Boot

open Paging Runs Simulation

-- In the order of the section .boot_tables, one page each.
inductive InitTable where
  | pageTable0 | bootPT1 | kernelPT0 | kernelPT1 | bootPD | kernelPD | bootPDPT | kernelPDPT | bootPML4T
deriving DecidableEq, Repr

def InitTable.number : InitTable → Nat
  | pageTable0 => 0
  | bootPT1 => 1
  | kernelPT0 => 2
  | kernelPT1 => 3
  | bootPD => 4
  | kernelPD => 5
  | bootPDPT => 6
  | kernelPDPT => 7
  | bootPML4T => 8

def initTables : List InitTable :=
  [.pageTable0, .bootPT1, .kernelPT0, .kernelPT1, .bootPD, .kernelPD, .bootPDPT, .kernelPDPT, .bootPML4T]

section
variable (base : Addr)

def tableAddr (table : InitTable) : Addr := base + BitVec.ofNat 64 (table.number * 0x1000)

-- .rept of .quad address, with .set address, address + 0x1000 behind each of them.
def reptEntry (address : BitVec 64) (index : BitVec 9) : BitVec 64 := address + 0x1000 * index.setWidth 64

def pageTable0 (index : BitVec 9) : BitVec 64 := if index = 0 then 0 else reptEntry 0x1103 (index - 1)

-- The assembler's address goes on from the last entry of PageTable0.
def bootPT1 (index : BitVec 9) : BitVec 64 := reptEntry (reptEntry 0x1103 511) index

def kernelPT0 (index : BitVec 9) : BitVec 64 := reptEntry 0x103 index

-- Here the address is set again.
def kernelPT1 (index : BitVec 9) : BitVec 64 := reptEntry 0x103 index

def bootPD (index : BitVec 9) : BitVec 64 :=
  if index = 0 then tableAddr base .pageTable0 + 1 else if index = 1 then tableAddr base .bootPT1 + 1 else 0

def kernelPD (index : BitVec 9) : BitVec 64 :=
  if index = 0 then tableAddr base .kernelPT0 + 1 else if index = 1 then tableAddr base .kernelPT1 + 1 else 0

def bootPDPT (index : BitVec 9) : BitVec 64 := if index = 0 then tableAddr base .bootPD + 1 else 0

def kernelPDPT (index : BitVec 9) : BitVec 64 := if index = 0 then tableAddr base .kernelPD + 1 else 0

def bootPML4T (index : BitVec 9) : BitVec 64 :=
  if index = 0 then tableAddr base .bootPDPT + 1
  else if index = 510 then tableAddr base .bootPML4T + 1
  else if index = 511 then tableAddr base .kernelPDPT + 1
  else 0

def tableWord (table : InitTable) (index : BitVec 9) : BitVec 64 :=
  match table with
  | .pageTable0 => pageTable0 index
  | .bootPT1 => bootPT1 index
  | .kernelPT0 => kernelPT0 index
  | .kernelPT1 => kernelPT1 index
  | .bootPD => bootPD base index
  | .kernelPD => kernelPD base index
  | .bootPDPT => bootPDPT base index
  | .kernelPDPT => kernelPDPT base index
  | .bootPML4T => bootPML4T base index

-- Paging.Memory with the tables from base on; the rest of it is whatever the machine starts with.
def bootMemory (rest : Paging.Memory) : Paging.Memory := fun address =>
  match initTables[(address - base).toNat / 0x1000]? with
  | some table => tableWord base table (BitVec.ofNat 9 ((address - base).toNat % 0x1000 / 8))
  | none => rest address

end

-- The section starts at a page boundary, and its addresses fit an entry.
structure Loaded (base : Addr) : Prop where
  aligned : base.toNat % 4096 = 0
  small : base.toNat + 0x9000 ≤ 2 ^ 52

section
variable (base : Addr) (rest : Paging.Memory) (loaded : Loaded base)

theorem number_bound (table : InitTable) : table.number < 9 := by
  cases table <;> decide

theorem init_tables_number (table : InitTable) : initTables[table.number]? = some table := by
  cases table <;> rfl

theorem init_tables_index (number : Nat) (table : InitTable) (found : initTables[number]? = some table) : table.number = number := by
  obtain ⟨below, _⟩ := List.getElem?_eq_some_iff.mp found
  have known : ∀ index < 9, ∀ other ∈ initTables[index]?, other.number = index := by decide
  exact known number below table found

include loaded

theorem table_addr_to_nat (table : InitTable) : (tableAddr base table).toNat = base.toNat + table.number * 0x1000 := by
  have bound := number_bound table
  have small := loaded.small
  rw [tableAddr, BitVec.toNat_add, BitVec.toNat_ofNat]
  omega

theorem table_addr_aligned (table : InitTable) : Paging.Aligned (tableAddr base table) := by
  have aligned := loaded.aligned
  rw [Paging.Aligned, table_addr_to_nat base loaded]
  omega

theorem table_addr_whole (table : InitTable) : frame (tableAddr base table) = tableAddr base table := by
  have bound := number_bound table
  have small := loaded.small
  exact whole_frame _ (table_addr_aligned base loaded table) (by rw [table_addr_to_nat base loaded]; omega)

theorem table_addr_inj (table other : InitTable) (same : tableAddr base table = tableAddr base other) : table = other := by
  have numbers := congrArg BitVec.toNat same
  rw [table_addr_to_nat base loaded, table_addr_to_nat base loaded] at numbers
  have equal : table.number = other.number := by omega
  have first := init_tables_number table
  rw [equal, init_tables_number] at first
  exact (Option.some.inj first).symm

theorem boot_memory_word (table : InitTable) (index : BitVec 9) :
    bootMemory base rest (entryAddr (tableAddr base table) index) = tableWord base table index := by
  have bound := number_bound table
  have inside := index.isLt
  have small := loaded.small
  have offset : (entryAddr (tableAddr base table) index - base).toNat = table.number * 0x1000 + 8 * index.toNat := by
    rw [BitVec.toNat_sub, entry_addr_to_nat _ index (table_addr_aligned base loaded table), table_addr_to_nat base loaded]
    omega
  have number : (table.number * 0x1000 + 8 * index.toNat) / 0x1000 = table.number := by omega
  have word : BitVec.ofNat 9 ((table.number * 0x1000 + 8 * index.toNat) % 0x1000 / 8) = index := by
    apply BitVec.eq_of_toNat_eq
    rw [BitVec.toNat_ofNat]
    omega
  rw [bootMemory, offset, number, init_tables_number]
  exact congrArg (tableWord base table) word

-- An entry of a directory: the address of the table, with the bit for present.
theorem link_word (table : InitTable) : tableAddr base table + 1 = tableAddr base table ||| 1 := by
  have apart : tableAddr base table &&& 1 = 0 := by
    rw [← table_addr_whole base loaded table, frame, BitVec.and_assoc]
    exact BitVec.and_zero
  exact BitVec.add_eq_or_of_and_eq_zero _ _ apart

theorem link_entry (table : InitTable) :
    present (tableAddr base table + 1) = true ∧ huge (tableAddr base table + 1) = false ∧
      frame (tableAddr base table + 1) = tableAddr base table := by
  have whole := table_addr_whole base loaded table
  rw [link_word base loaded]
  refine ⟨?_, ?_, joined_frame _ 1 whole (by decide)⟩
  · rw [present, BitVec.getLsbD_or]
    exact Bool.or_true _
  · rw [huge, BitVec.getLsbD_or, ← whole, frame, BitVec.getLsbD_and,
      show (0x000FFFFFFFFFF000 : BitVec 64).getLsbD 7 = false by decide, Bool.and_false]
    decide

-- The directories have no bit for writing, although their pages have it.
theorem link_read_only (table : InitTable) : (tableAddr base table + 1).getLsbD 1 = false := by
  rw [link_word base loaded, BitVec.getLsbD_or, ← table_addr_whole base loaded table, frame, BitVec.getLsbD_and,
    show (0x000FFFFFFFFFF000 : BitVec 64).getLsbD 1 = false by decide, Bool.and_false]
  decide

end

-- The table that an entry of a directory leads to.
def InitTable.next (table : InitTable) (index : BitVec 9) : Option InitTable :=
  match table with
  | bootPD => if index = 0 then some pageTable0 else if index = 1 then some bootPT1 else none
  | kernelPD => if index = 0 then some kernelPT0 else if index = 1 then some kernelPT1 else none
  | bootPDPT => if index = 0 then some bootPD else none
  | kernelPDPT => if index = 0 then some kernelPD else none
  | bootPML4T => if index = 0 then some bootPDPT else if index = 510 then some bootPML4T else if index = 511 then some kernelPDPT else none
  | _ => none

def Directory (table : InitTable) : Prop := 4 ≤ table.number

section
variable (base : Addr) (rest : Paging.Memory) (loaded : Loaded base)

theorem directory_word (table : InitTable) (index : BitVec 9) (directory : Directory table) :
    (∃ next, table.next index = some next ∧ tableWord base table index = tableAddr base next + 1) ∨
      (table.next index = none ∧ tableWord base table index = 0) := by
  cases table with
  | bootPD =>
      rw [InitTable.next, tableWord, bootPD]
      split_ifs
      · exact .inl ⟨_, rfl, rfl⟩
      · exact .inl ⟨_, rfl, rfl⟩
      · exact .inr ⟨rfl, rfl⟩
  | kernelPD =>
      rw [InitTable.next, tableWord, kernelPD]
      split_ifs
      · exact .inl ⟨_, rfl, rfl⟩
      · exact .inl ⟨_, rfl, rfl⟩
      · exact .inr ⟨rfl, rfl⟩
  | bootPDPT =>
      rw [InitTable.next, tableWord, bootPDPT]
      split_ifs
      · exact .inl ⟨_, rfl, rfl⟩
      · exact .inr ⟨rfl, rfl⟩
  | kernelPDPT =>
      rw [InitTable.next, tableWord, kernelPDPT]
      split_ifs
      · exact .inl ⟨_, rfl, rfl⟩
      · exact .inr ⟨rfl, rfl⟩
  | bootPML4T =>
      rw [InitTable.next, tableWord, bootPML4T]
      split_ifs
      · exact .inl ⟨_, rfl, rfl⟩
      · exact .inl ⟨_, rfl, rfl⟩
      · exact .inl ⟨_, rfl, rfl⟩
      · exact .inr ⟨rfl, rfl⟩
  | pageTable0 | bootPT1 | kernelPT0 | kernelPT1 => exact absurd directory (by unfold Directory; decide)

include loaded

theorem directory_table_at (table : InitTable) (index : BitVec 9) (directory : Directory table) :
    tableAt (bootMemory base rest) (tableAddr base table) index = (table.next index).map (tableAddr base) := by
  rw [tableAt, boot_memory_word base rest loaded]
  rcases directory_word base table index directory with ⟨next, linked, word⟩ | ⟨none, word⟩
  · obtain ⟨there, small, target⟩ := link_entry base loaded next
    rw [linked, word, there, small, target]
    rfl
  · rw [none, word]
    rfl

end

-- The tables below the PML4, by the indices that lead to them.
def ownPaths : List (List (BitVec 9) × InitTable) :=
  [([], .bootPML4T), ([0], .bootPDPT), ([511], .kernelPDPT), ([0, 0], .bootPD), ([511, 0], .kernelPD), ([0, 0, 0], .pageTable0),
    ([0, 0, 1], .bootPT1), ([511, 0, 0], .kernelPT0), ([511, 0, 1], .kernelPT1)]

theorem own_paths_next : ∀ known ∈ ownPaths, ∀ index : BitVec 9, (known.1 ++ [index]).head? ≠ some 510 →
    ∀ next ∈ known.2.next index, (known.1 ++ [index], next) ∈ ownPaths := by
  decide +kernel

theorem own_paths_directory : ∀ known ∈ ownPaths, known.1.length ≤ 2 → 4 ≤ known.2.number := by decide

section
variable (base : Addr) (rest : Paging.Memory) (loaded : Loaded base)

include loaded

theorem boot_tables_on (path : List (BitVec 9)) (address : Addr) (own : OwnPath path)
    (on : tableOn (bootMemory base rest) (tableAddr base .bootPML4T) path = some address) :
    ∃ table, address = tableAddr base table ∧ (path, table) ∈ ownPaths := by
  induction path using List.reverseRecOn generalizing address with
  | nil => exact ⟨.bootPML4T, (Option.some.inj on).symm, List.mem_cons_self⟩
  | append_singleton path index ih =>
      obtain ⟨short, head⟩ := own
      rw [List.length_append, List.length_singleton] at short
      rw [table_on_append] at on
      obtain ⟨above, aboveOn, last⟩ := Option.bind_eq_some_iff.mp on
      have aboveOwn : OwnPath path := by
        refine ⟨by omega, fun first => head ?_⟩
        rw [List.head?_append, first]
        rfl
      obtain ⟨table, rfl, known⟩ := ih above aboveOwn aboveOn
      rw [table_on_single, directory_table_at base rest loaded table index
        (own_paths_directory (path, table) known (Nat.le_of_succ_le_succ short))] at last
      obtain ⟨next, linked, rfl⟩ := Option.map_eq_some_iff.mp last
      exact ⟨next, rfl, own_paths_next (path, table) known index head next linked⟩

theorem boot_table_there (path : List (BitVec 9)) (index : BitVec 9) (table next : InitTable) (directory : Directory table)
    (on : tableOn (bootMemory base rest) (tableAddr base .bootPML4T) path = some (tableAddr base table))
    (linked : table.next index = some next) :
    tableOn (bootMemory base rest) (tableAddr base .bootPML4T) (path ++ [index]) = some (tableAddr base next) := by
  rw [table_on_append, on, Option.bind_some, table_on_single, directory_table_at base rest loaded table index directory, linked]
  rfl

theorem own_paths_there : ∀ known ∈ ownPaths,
    tableOn (bootMemory base rest) (tableAddr base .bootPML4T) known.1 = some (tableAddr base known.2) := by
  have there := boot_table_there base rest loaded
  have low := there [] 0 .bootPML4T .bootPDPT (by decide +kernel : 4 ≤ _) rfl rfl
  have high := there [] 511 .bootPML4T .kernelPDPT (by decide +kernel : 4 ≤ _) rfl rfl
  have lowDirectory := there [0] 0 .bootPDPT .bootPD (by decide +kernel : 4 ≤ _) low rfl
  have highDirectory := there [511] 0 .kernelPDPT .kernelPD (by decide +kernel : 4 ≤ _) high rfl
  simp only [ownPaths, List.forall_mem_cons]
  exact ⟨rfl, low, high, lowDirectory, highDirectory, there [0, 0] 0 .bootPD .pageTable0 (by decide +kernel : 4 ≤ _) lowDirectory rfl,
    there [0, 0] 1 .bootPD .bootPT1 (by decide +kernel : 4 ≤ _) lowDirectory rfl,
    there [511, 0] 0 .kernelPD .kernelPT0 (by decide +kernel : 4 ≤ _) highDirectory rfl,
    there [511, 0] 1 .kernelPD .kernelPT1 (by decide +kernel : 4 ≤ _) highDirectory rfl, fun _ none => absurd none List.not_mem_nil⟩

theorem boot_tables_tree : Tree (bootMemory base rest) (tableAddr base .bootPML4T) where
  recursive := directory_table_at base rest loaded .bootPML4T 510 (by decide +kernel : 4 ≤ _)
  distinct := by
    intro path other address own otherOwn on otherOn
    obtain ⟨table, rfl, known⟩ := boot_tables_on base rest loaded path address own on
    obtain ⟨otherTable, same, otherKnown⟩ := boot_tables_on base rest loaded other _ otherOwn otherOn
    obtain rfl := table_addr_inj base loaded table otherTable same
    have unique : ∀ first ∈ ownPaths, ∀ second ∈ ownPaths, first.2 = second.2 → first = second := by decide
    exact congrArg Prod.fst (unique _ known _ otherKnown rfl)

theorem boot_tables_plain : Plain (bootMemory base rest) (tableAddr base .bootPML4T) := by
  intro path address index short own on there
  obtain ⟨table, rfl, known⟩ := boot_tables_on base rest loaded path address own on
  rw [boot_memory_word base rest loaded] at there ⊢
  rcases directory_word base table index (own_paths_directory (path, table) known short) with ⟨next, _, word⟩ | ⟨_, word⟩
  · rw [word]
    exact (link_entry base loaded next).2.1
  · rw [word]
    rfl

end

-- KERNEL_VMA of linker.ld.
def kernelVma : Nat := 0xFFFFFF8000000000

-- The processor walks the low 48 bits. The first 4 MiB but for the page at 0 are mapped to themselves, and those from
-- KERNEL_VMA on to the first 2 MiB, twice.
def bootMap (vaddr : Addr) : Option Addr :=
  let low := vaddr.toNat % 2 ^ 48
  if 0x1000 ≤ low ∧ low < 0x400000 then some (BitVec.ofNat 64 low)
  else if kernelVma % 2 ^ 48 ≤ low ∧ low < kernelVma % 2 ^ 48 + 0x400000 then some (BitVec.ofNat 64 (low % 0x200000))
  else none

theorem page_table0_pages : ∀ index : BitVec 9,
    (presentWord (pageTable0 index)).map frame = if index = 0 then none else some (0x1000 * index.setWidth 64) := by
  decide +kernel

theorem boot_pt1_pages : ∀ index : BitVec 9, (presentWord (bootPT1 index)).map frame = some (0x200000 + 0x1000 * index.setWidth 64) := by
  decide +kernel

theorem kernel_pt_pages : ∀ index : BitVec 9, (presentWord (reptEntry 0x103 index)).map frame = some (0x1000 * index.setWidth 64) := by
  decide +kernel

theorem offset_to_nat (vaddr : Addr) : (vaddr &&& 0xFFF).toNat = vaddr.toNat % 4096 := by
  rw [BitVec.toNat_and]
  exact Nat.and_two_pow_sub_one_eq_mod _ 12

-- A page of the table that maps 2 MiB from a start on.
theorem page_address (vaddr : Addr) (start target : Nat) (startEq : start % 0x200000 = 0)
    (sum : start + vaddr.toNat % 0x200000 = target) :
    BitVec.ofNat 64 start + 0x1000 * (walkIndex vaddr 12).setWidth 64 + (vaddr &&& 0xFFF) = BitVec.ofNat 64 target := by
  have index := walk_index_to_nat vaddr 12
  have bound := (walkIndex vaddr 12).isLt
  have product : (0x1000#64 * (walkIndex vaddr 12).setWidth 64).toNat = 0x1000 * (walkIndex vaddr 12).toNat := by
    rw [BitVec.toNat_mul, BitVec.toNat_setWidth, BitVec.toNat_ofNat]
    omega
  apply BitVec.eq_of_toNat_eq
  rw [BitVec.toNat_add, BitVec.toNat_add, offset_to_nat, BitVec.toNat_ofNat, BitVec.toNat_ofNat]
  have parts := congrArg (fun offset => ((start % 2 ^ 64 + offset) % 2 ^ 64 + vaddr.toNat % 4096) % 2 ^ 64) product
  refine parts.trans ?_
  omega

theorem index_iff (vaddr : Addr) (low : Nat) (index : BitVec 9) : walkIndex vaddr low = index ↔ vaddr.toNat / 2 ^ low % 512 = index.toNat := by
  rw [← walk_index_to_nat, BitVec.toNat_inj]

theorem path_to_three (vaddr : Addr) : pathTo vaddr 3 = [walkIndex vaddr 39, walkIndex vaddr 30, walkIndex vaddr 21] := rfl

theorem path_numbers (vaddr : Addr) (pml4 pdpt pdir : BitVec 9) : pathTo vaddr 3 = [pml4, pdpt, pdir] ↔
    vaddr.toNat / 2 ^ 39 % 512 = pml4.toNat ∧ vaddr.toNat / 2 ^ 30 % 512 = pdpt.toNat ∧ vaddr.toNat / 2 ^ 21 % 512 = pdir.toNat := by
  rw [path_to_three, List.cons.injEq, List.cons.injEq, List.cons.injEq, index_iff, index_iff, index_iff]
  simp only [and_true]

theorem kernel_address (lma : Nat) (low : lma < 2 ^ 39) : (BitVec.ofNat 64 (kernelVma + lma)).toNat = kernelVma + lma := by
  have vma : kernelVma = 0xFFFFFF8000000000 := rfl
  rw [BitVec.toNat_ofNat, vma]
  omega

theorem kernel_outside (lma : Nat) (low : lma < 2 ^ 39) : OutsideSlot (BitVec.ofNat 64 (kernelVma + lma)) := by
  intro slot
  have number := (index_iff _ _ _).mp slot
  have vma : kernelVma = 0xFFFFFF8000000000 := rfl
  rw [kernel_address lma low, show (510 : BitVec 9).toNat = 510 by rfl, vma] at number
  omega

theorem kernel_boot_map (lma : Nat) (low : lma < 2 ^ 39) : bootMap (BitVec.ofNat 64 (kernelVma + lma)) =
    if lma < 0x400000 then some (BitVec.ofNat 64 (lma % 0x200000)) else none := by
  have vma : kernelVma = 0xFFFFFF8000000000 := rfl
  have high : (kernelVma + lma) % 2 ^ 48 = 0xFF8000000000 + lma := by
    rw [vma]
    omega
  rw [bootMap, kernel_address lma low, high, show kernelVma % 2 ^ 48 = 0xFF8000000000 by decide, if_neg (by omega)]
  by_cases inside : lma < 0x400000
  · rw [if_pos inside, if_pos (by omega), show (0xFF8000000000 + lma) % 0x200000 = lma % 0x200000 by omega]
  · rw [if_neg inside, if_neg (by omega)]

section
variable (base : Addr) (rest : Paging.Memory) (loaded : Loaded base)

include loaded

theorem boot_mapping (vaddr : Addr) (table : InitTable)
    (on : tableOn (bootMemory base rest) (tableAddr base .bootPML4T) (pathTo vaddr 3) = some (tableAddr base table)) :
    mapping (bootMemory base rest) (tableAddr base .bootPML4T) vaddr = presentWord (tableWord base table (walkIndex vaddr 12)) := by
  rw [mapping, level_entry_on _ _ vaddr 3 _ on, Option.bind_some]
  exact congrArg presentWord (boot_memory_word base rest loaded table _)

theorem boot_unmapped (vaddr : Addr) (none : tableOn (bootMemory base rest) (tableAddr base .bootPML4T) (pathTo vaddr 3) = none) :
    bootMap vaddr = .none := by
  have apart : ∀ known ∈ ownPaths, pathTo vaddr 3 ≠ known.1 := by
    intro known member same
    rw [same, own_paths_there base rest loaded known member] at none
    cases none
  have first := (path_numbers vaddr 0 0 0).not.mp (apart ([0, 0, 0], .pageTable0) (by decide))
  have second := (path_numbers vaddr 0 0 1).not.mp (apart ([0, 0, 1], .bootPT1) (by decide))
  have third := (path_numbers vaddr 511 0 0).not.mp (apart ([511, 0, 0], .kernelPT0) (by decide))
  have fourth := (path_numbers vaddr 511 0 1).not.mp (apart ([511, 0, 1], .kernelPT1) (by decide))
  have zero : (0 : BitVec 9).toNat = 0 := rfl
  have one : (1 : BitVec 9).toNat = 1 := rfl
  have last : (511 : BitVec 9).toNat = 511 := rfl
  have vma : kernelVma % 2 ^ 48 = 0xFF8000000000 := by decide
  rw [zero] at first second third fourth
  rw [one] at second fourth
  rw [last] at third fourth
  rw [bootMap, vma, if_neg (by omega), if_neg (by omega)]

-- Outside the recursive slot the tables map what bootMap says, whatever else memory holds.
theorem boot_walk_exact (vaddr : Addr) (outside : OutsideSlot vaddr) :
    walk (bootMemory base rest) (tableAddr base .bootPML4T) vaddr = bootMap vaddr := by
  rw [walk_mapping _ _ vaddr (boot_tables_plain base rest loaded) outside]
  cases on : tableOn (bootMemory base rest) (tableAddr base .bootPML4T) (pathTo vaddr 3) with
  | none =>
      rw [mapping, levelEntry, on, boot_unmapped base rest loaded vaddr on]
      rfl
  | some address =>
      obtain ⟨table, rfl, known⟩ := boot_tables_on base rest loaded _ address (path_to_own vaddr 3 outside (by decide)) on
      have leaf : ∀ pages, (presentWord (tableWord base table (walkIndex vaddr 12))).map frame = pages →
          (mapping (bootMemory base rest) (tableAddr base .bootPML4T) vaddr).map (fun entry => frame entry + (vaddr &&& 0xFFF)) =
            pages.map fun page => page + (vaddr &&& 0xFFF) := by
        rintro pages rfl
        rw [boot_mapping base rest loaded vaddr table on, Option.map_map]
        rfl
      have vma : kernelVma % 2 ^ 48 = 0xFF8000000000 := by decide
      have lengths : ∀ path, pathTo vaddr 3 = path → path.length = 3 := fun path same => same ▸ path_to_length vaddr 3
      have address := page_address vaddr
      rw [bootMap, vma]
      simp only [ownPaths, List.mem_cons, Prod.mk.injEq, List.not_mem_nil, or_false] at known
      rcases known with ⟨same, _⟩ | ⟨same, _⟩ | ⟨same, _⟩ | ⟨same, _⟩ | ⟨same, _⟩ | ⟨same, rfl⟩ | ⟨same, rfl⟩ | ⟨same, rfl⟩ | ⟨same, rfl⟩
      · exact absurd (lengths _ same) (by decide)
      · exact absurd (lengths _ same) (by decide)
      · exact absurd (lengths _ same) (by decide)
      · exact absurd (lengths _ same) (by decide)
      · exact absurd (lengths _ same) (by decide)
      · obtain ⟨pml4, pdpt, pdir⟩ := (path_numbers vaddr 0 0 0).mp same
        have numbers : (0 : BitVec 9).toNat = 0 := rfl
        rw [numbers] at pml4 pdpt pdir
        rw [leaf _ (page_table0_pages _)]
        have page := index_iff vaddr 12 0
        rw [numbers] at page
        by_cases null : walkIndex vaddr 12 = 0
        · have zero := page.mp null
          rw [if_pos null, if_neg (by omega), if_neg (by omega)]
          rfl
        · have some := page.not.mp null
          rw [if_neg null, if_pos (by omega), ← address 0 _ (by decide) (by omega : 0 + vaddr.toNat % 0x200000 = vaddr.toNat % 2 ^ 48),
            BitVec.zero_add, Option.map_some]
      · obtain ⟨pml4, pdpt, pdir⟩ := (path_numbers vaddr 0 0 1).mp same
        rw [show (0 : BitVec 9).toNat = 0 by rfl] at pml4 pdpt
        rw [show (1 : BitVec 9).toNat = 1 by rfl] at pdir
        rw [leaf _ (boot_pt1_pages _), if_pos (by omega),
          ← address 0x200000 _ (by decide) (by omega : 0x200000 + vaddr.toNat % 0x200000 = vaddr.toNat % 2 ^ 48)]
        rfl
      · obtain ⟨pml4, pdpt, pdir⟩ := (path_numbers vaddr 511 0 0).mp same
        rw [show (0 : BitVec 9).toNat = 0 by rfl] at pdpt pdir
        rw [show (511 : BitVec 9).toNat = 511 by rfl] at pml4
        rw [leaf _ (kernel_pt_pages _), if_neg (by omega), if_pos (by omega),
          ← address 0 _ (by decide) (by omega : 0 + vaddr.toNat % 0x200000 = vaddr.toNat % 2 ^ 48 % 0x200000), BitVec.zero_add,
          Option.map_some]
      · obtain ⟨pml4, pdpt, pdir⟩ := (path_numbers vaddr 511 0 1).mp same
        rw [show (0 : BitVec 9).toNat = 0 by rfl] at pdpt
        rw [show (1 : BitVec 9).toNat = 1 by rfl] at pdir
        rw [show (511 : BitVec 9).toNat = 511 by rfl] at pml4
        rw [leaf _ (kernel_pt_pages _), if_neg (by omega), if_pos (by omega),
          ← address 0 _ (by decide) (by omega : 0 + vaddr.toNat % 0x200000 = vaddr.toNat % 2 ^ 48 % 0x200000), BitVec.zero_add,
          Option.map_some]

-- linker.ld loads what it links to KERNEL_VMA + lma at lma. The tables agree with it as long as the image ends below 2 MiB:
-- behind that, KernelPT1 leads back to the first pages.
theorem kernel_image_mapped_iff (kernelEndPhys : Nat) (nonempty : kernelLma < kernelEndPhys) (fits : kernelEndPhys ≤ 2 ^ 39) :
    (∀ lma ∈ kernelImage kernelEndPhys, walk (bootMemory base rest) (tableAddr base .bootPML4T) (BitVec.ofNat 64 (kernelVma + lma)) =
      some (BitVec.ofNat 64 lma)) ↔ kernelEndPhys ≤ 0x200000 := by
  have lma : kernelLma = 0x100000 := rfl
  rw [lma] at nonempty
  constructor
  · intro mapped
    by_contra large
    have last := mapped 0x200000 ⟨by decide, Nat.not_le.mp large⟩
    rw [boot_walk_exact base rest loaded _ (kernel_outside 0x200000 (by decide)), kernel_boot_map 0x200000 (by decide)] at last
    exact absurd last (by decide)
  · intro small lma inside
    obtain ⟨_, below⟩ := inside
    rw [boot_walk_exact base rest loaded _ (kernel_outside lma (by omega)), kernel_boot_map lma (by omega), if_pos (by omega),
      Nat.mod_eq_of_lt (by omega)]

end

section
variable (base : Addr) (rest : Paging.Memory) (initial : Pmem.FreeLists) (loaded : Loaded base)

-- Free frames that are none of the tables and read as clear before anything is mapped.
structure FreeBehind : Prop where
  wellFormed : Pmem.WellFormed initial
  small : ∀ byte ∈ Pmem.freeBytes initial, byte < 2 ^ 52
  apart : ∀ page, Pmem.FreeFrame initial page → ∀ table, page ≠ tableAddr base table
  clear : ∀ page, Pmem.FreeFrame initial page → Paging.Clear rest page

include loaded

theorem boot_memory_behind (page : Addr) (index : BitVec 9) (aligned : Paging.Aligned page) (apart : ∀ table, page ≠ tableAddr base table) :
    bootMemory base rest (entryAddr page index) = rest (entryAddr page index) := by
  rw [bootMemory]
  split
  · rename_i table found
    have number := init_tables_index _ table found
    have bound := number_bound table
    have small := loaded.small
    have inside := index.isLt
    have baseAligned := loaded.aligned
    have sum := entry_addr_to_nat page index aligned
    have highest := (entryAddr page index).isLt
    rw [Paging.Aligned] at aligned
    rw [BitVec.toNat_sub, sum] at number
    refine absurd (BitVec.eq_of_toNat_eq ?_) (apart table)
    rw [table_addr_to_nat base loaded, number]
    omega
  · rfl

theorem boot_tables_booted (free : FreeBehind base rest initial) :
    Booted (tableAddr base .bootPML4T) initial (bootMemory base rest) where
  tree := boot_tables_tree base rest loaded
  plain := boot_tables_plain base rest loaded
  wellFormed := free.wellFormed
  small := free.small
  unused := by
    intro page freePage path own on
    obtain ⟨table, same, _⟩ := boot_tables_on base rest loaded path page own on
    exact free.apart page freePage table same
  clear := by
    intro page freePage index
    rw [boot_memory_behind base rest loaded page index ((page_aligned_iff page).mp freePage.1) (free.apart page freePage)]
    exact free.clear page freePage index

-- Whatever is faulted in, mapped and unmapped later, the pages of the boot map that no call names keep their place.
theorem boot_runs_keep_map (free : FreeBehind base rest initial) (calls : List SystemCall)
    (along : Along (systemStep (tableAddr base .bootPML4T)) (Owed (tableAddr base .bootPML4T))
      (started (bootMemory base rest) initial) calls) :
    ∃ last, run (systemStep (tableAddr base .bootPML4T)) (started (bootMemory base rest) initial) calls = some last ∧
      ∀ vaddr, OutsideSlot vaddr → bootMap vaddr ≠ none → (∀ call ∈ calls, Spares vaddr call) →
        walk last.mem (tableAddr base .bootPML4T) vaddr = bootMap vaddr := by
  have booted := boot_tables_booted base rest initial loaded free
  obtain ⟨last, finished, plain, kept⟩ := paging_runs_keep_pages _ initial _ calls booted along
  refine ⟨last, finished, fun vaddr outside mapped spares => ?_⟩
  have before := boot_walk_exact base rest loaded vaddr outside
  rw [walk_mapping _ _ vaddr booted.plain outside] at before
  obtain ⟨entry, entryEq, _⟩ := Option.map_eq_some_iff.mp
    (before.trans (Option.some_get (Option.isSome_iff_ne_none.mpr mapped)).symm)
  rw [walk_mapping _ _ vaddr plain outside, kept vaddr entry outside spares entryEq, ← entryEq]
  exact before

end

theorem image_behind_loaded : Loaded 0x101000 := ⟨by decide, by decide⟩

theorem eight_frames_behind : FreeBehind 0x101000 (fun _ => 0) eightFrames where
  wellFormed := holed_tables_booted.wellFormed
  small := holed_tables_booted.small
  apart := by
    rintro page free table rfl
    have below := (eight_frames_bytes _ ((Pmem.mem_free_bytes eightFrames _).mpr free.2)).2
    rw [table_addr_to_nat 0x101000 image_behind_loaded, show (0x101000 : Addr).toNat = 0x101000 by rfl] at below
    omega
  clear := fun _ _ _ => (by decide : present 0 = false)

example : walk (bootMemory 0x101000 fun _ => 0) (tableAddr 0x101000 .bootPML4T) 0xFFFFFF8000205123 = some 0x5123 :=
  boot_walk_exact 0x101000 (fun _ => 0) image_behind_loaded 0xFFFFFF8000205123 (by decide)

theorem small_image_mapped_iff :
    (∀ lma ∈ kernelImage 0x180000, walk (bootMemory 0x101000 fun _ => 0) (tableAddr 0x101000 .bootPML4T)
      (BitVec.ofNat 64 (kernelVma + lma)) = some (BitVec.ofNat 64 lma)) ↔ 0x180000 ≤ 0x200000 :=
  kernel_image_mapped_iff 0x101000 (fun _ => 0) image_behind_loaded 0x180000 (by decide) (by decide)

def bootCalls : List SystemCall := [.fault 2 0x500123, .fault 0 0x600000, .unmapRange 0x500000 1]

def bootFaulted : Option System :=
  systemStep (tableAddr 0x101000 .bootPML4T) (started (bootMemory 0x101000 fun _ => 0) eightFrames) (.fault 2 0x500123)

theorem boot_faulted : bootFaulted.isSome := by decide +kernel

def bootFaultedAgain : Option System := systemStep (tableAddr 0x101000 .bootPML4T) (bootFaulted.get boot_faulted) (.fault 0 0x600000)

theorem boot_faulted_again : bootFaultedAgain.isSome := by decide +kernel

theorem boot_calls_owed : Along (systemStep (tableAddr 0x101000 .bootPML4T)) (Owed (tableAddr 0x101000 .bootPML4T))
    (started (bootMemory 0x101000 fun _ => 0) eightFrames) bootCalls := by
  refine (along_cons _ _ _ _ _ _ (Option.some_get boot_faulted).symm).mpr
    ⟨⟨by decide, by decide, by decide +kernel, by decide +kernel⟩, ?_⟩
  refine (along_cons _ _ _ _ _ _ (Option.some_get boot_faulted_again).symm).mpr
    ⟨⟨by decide, by decide, by decide +kernel, by decide +kernel⟩, ⟨⟨by decide, ?_⟩, fun _ _ => trivial⟩⟩
  unfold UnmapCondition
  decide +kernel

theorem boot_calls_keep_map :
    ∃ last, run (systemStep (tableAddr 0x101000 .bootPML4T)) (started (bootMemory 0x101000 fun _ => 0) eightFrames) bootCalls =
        some last ∧
      ∀ vaddr, OutsideSlot vaddr → bootMap vaddr ≠ none → (∀ call ∈ bootCalls, Spares vaddr call) →
        walk last.mem (tableAddr 0x101000 .bootPML4T) vaddr = bootMap vaddr :=
  boot_runs_keep_map 0x101000 (fun _ => 0) eightFrames image_behind_loaded eight_frames_behind bootCalls boot_calls_owed

end Kraftwerk.Boot
