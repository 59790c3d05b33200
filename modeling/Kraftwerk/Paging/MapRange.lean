import Kraftwerk.Paging.EntryBits
import Kraftwerk.Paging.WindowAccess

set_option autoImplicit false

-- paging::map_range where the tables of the range exist.
namespace Kraftwerk.Paging

def pageOf (vaddr : Addr) (index : Nat) : Addr := vaddr + BitVec.ofNat 64 (index * 4096)

theorem page_of_zero (vaddr : Addr) : pageOf vaddr 0 = vaddr := by
  rw [pageOf, Nat.zero_mul]
  exact BitVec.add_zero vaddr

theorem page_of_next (vaddr : Addr) (index : Nat) : pageOf (vaddr + 0x1000) index = pageOf vaddr (index + 1) := by
  have step : (0x1000 : Addr).toNat = 4096 := rfl
  apply BitVec.eq_of_toNat_eq
  simp only [pageOf, BitVec.toNat_add, BitVec.toNat_ofNat, step]
  omega

theorem same_page_number (vaddr other : Addr) (same : SamePage vaddr other) :
    vaddr.toNat / 4096 % 2 ^ 36 = other.toNat / 4096 % 2 ^ 36 := by
  simp only [SamePage, pathTo, List.nil_append, List.cons_append, List.cons.injEq, and_true] at same
  obtain ⟨pml4, pdpt, pdir, ptbl⟩ := same
  have numbers : ∀ low, walkIndex vaddr low = walkIndex other low → vaddr.toNat / 2 ^ low % 512 = other.toNat / 2 ^ low % 512 := by
    intro low equal
    rw [← walk_index_to_nat, ← walk_index_to_nat, equal]
  have first := numbers 39 pml4
  have second := numbers 30 pdpt
  have third := numbers 21 pdir
  have fourth := numbers 12 ptbl
  omega

-- Fewer than 2^36 pages from one address on are different pages.
theorem pages_apart (vaddr : Addr) (index other : Nat) (fits : index < 2 ^ 32) (otherFits : other < 2 ^ 32)
    (same : SamePage (pageOf vaddr index) (pageOf vaddr other)) : index = other := by
  have numbers := same_page_number _ _ same
  simp only [pageOf, BitVec.toNat_add, BitVec.toNat_ofNat] at numbers
  omega

def mappedEntry (pflags : BitVec 32) (paddr : Addr) : BitVec 64 := (paddr &&& ~~~0xFFF) ||| pflags.setWidth 64

-- The pages of a range have their tables, and are not in the recursive slot.
structure TablesThere (mem : Memory) (root vaddr : Addr) (count : Nat) : Prop where
  outside : ∀ index < count, OutsideSlot (pageOf vaddr index)
  there : ∀ index < count, ∃ entry, ptblEntry mem root (pageOf vaddr index) = some entry

-- Memory after the entries of a range have been written, one value for each page.
structure EntriesWritten (mem other : Memory) (root vaddr : Addr) (count : Nat) (value : Nat → BitVec 64) : Prop where
  written : ∀ index < count, ∀ entry, ptblEntry mem root (pageOf vaddr index) = some entry → other entry = value index
  kept : ∀ address, (∀ index < count, ptblEntry mem root (pageOf vaddr index) ≠ some address) → other address = mem address

section
variable (mem : Memory) (root vaddr : Addr) (count : Nat)

theorem tables_kept_trans (first second : Memory) (recursive : tableAt mem root 510 = some root)
    (kept : TablesKept mem first root) (later : TablesKept first second root) : TablesKept mem second root := by
  intro path table index short own on
  have same := tables_kept_on mem first root recursive kept path own.1
  exact (later path table index short own (same.trans on)).trans (kept path table index short own on)

theorem ptbl_entry_kept (other : Memory) (page : Addr) (recursive : tableAt mem root 510 = some root)
    (kept : TablesKept mem other root) : ptblEntry other root page = ptblEntry mem root page := by
  rw [ptbl_entry_level, ptbl_entry_level, tables_kept_entry mem other root page recursive kept 3 (Nat.le_refl 3)]

theorem tables_there_next (other : Memory) (recursive : tableAt mem root 510 = some root) (kept : TablesKept mem other root)
    (tables : TablesThere mem root vaddr (count + 1)) : TablesThere other root (vaddr + 0x1000) count where
  outside := fun index below => by
    rw [page_of_next]
    exact tables.outside (index + 1) (Nat.succ_lt_succ below)
  there := fun index below => by
    rw [page_of_next, ptbl_entry_kept mem root other _ recursive kept]
    exact tables.there (index + 1) (Nat.succ_lt_succ below)

theorem page_entries_apart (tree : Tree mem root) (fits : count ≤ 2 ^ 32) (tables : TablesThere mem root vaddr count)
    (index otherIndex : Nat) (below : index < count) (otherBelow : otherIndex < count) (entry : Addr)
    (here : ptblEntry mem root (pageOf vaddr index) = some entry)
    (there : ptblEntry mem root (pageOf vaddr otherIndex) = some entry) : otherIndex = index := by
  rw [ptbl_entry_level] at here there
  have same := (page_entry_shared mem root _ _ entry tree 3 (tables.outside index below) (Nat.le_refl 3) here there).2
  exact pages_apart vaddr otherIndex index (Nat.lt_of_lt_of_le otherBelow fits) (Nat.lt_of_lt_of_le below fits) same

-- The first page is written, then the others.
theorem entries_written_cons (other : Memory) (entry : Addr) (value : Nat → BitVec 64) (tree : Tree mem root)
    (fits : count + 1 ≤ 2 ^ 32) (tables : TablesThere mem root vaddr (count + 1)) (here : ptblEntry mem root vaddr = some entry)
    (kept : TablesKept mem (Function.update mem entry (value 0)) root)
    (later : EntriesWritten (Function.update mem entry (value 0)) other root (vaddr + 0x1000) count (fun index => value (index + 1))) :
    EntriesWritten mem other root vaddr (count + 1) value := by
  have entries : ∀ index, ptblEntry (Function.update mem entry (value 0)) root (pageOf (vaddr + 0x1000) index) =
      ptblEntry mem root (pageOf vaddr (index + 1)) := fun index => by
    rw [page_of_next, ptbl_entry_kept mem root _ _ tree.recursive kept]
  have first : ptblEntry mem root (pageOf vaddr 0) = some entry := by rwa [page_of_zero]
  constructor
  · intro index below page pageHere
    cases index with
    | zero =>
        obtain rfl := Option.some.inj (first.symm.trans pageHere)
        rw [later.kept entry, Function.update_self]
        intro index later same
        rw [entries] at same
        exact Nat.succ_ne_zero index (page_entries_apart mem root vaddr (count + 1) tree fits tables 0 (index + 1) below
          (Nat.succ_lt_succ later) entry first same)
    | succ index =>
        exact later.written index (Nat.lt_of_succ_lt_succ below) page ((entries index).trans pageHere)
  · intro address apart
    rw [later.kept address fun index below same => apart (index + 1) (Nat.succ_lt_succ below) ((entries index).symm.trans same)]
    exact write_elsewhere mem entry address _ fun same => apart 0 (Nat.succ_pos count) (same ▸ first)

end

theorem map_pages_writes (root : Addr) (pflags : BitVec 32) (count : Nat) (vaddr paddr : Addr) (machine : Machine)
    (tree : Tree machine.mem root) (fits : count ≤ 2 ^ 32) (tables : TablesThere machine.mem root vaddr count) :
    ∃ mem, mapPages root pflags count vaddr paddr machine = some { machine with mem := mem } ∧
      TablesKept machine.mem mem root ∧
      EntriesWritten machine.mem mem root vaddr count (fun index => mappedEntry pflags (pageOf paddr index)) := by
  induction count generalizing vaddr paddr machine with
  | zero =>
      refine ⟨machine.mem, rfl, fun _ _ _ _ _ _ => rfl, ?_, fun _ _ => rfl⟩
      intro index below
      cases below
  | succ count ih =>
      have outside := tables.outside 0 (Nat.succ_pos count)
      obtain ⟨entry, here⟩ := tables.there 0 (Nat.succ_pos count)
      rw [page_of_zero] at outside here
      have level := (ptbl_entry_level machine.mem root vaddr).symm.trans here
      obtain ⟨ptbl, ptblOn, _⟩ := Option.map_eq_some_iff.mp here
      have checked := check_there machine.mem root vaddr tree.recursive ptbl ptblOn
      have stored := store_entry_here machine.mem root vaddr tree.recursive entry here (mappedEntry pflags paddr)
      have kept := page_write_kept machine.mem root vaddr entry (mappedEntry pflags paddr) tree outside level
      obtain ⟨mem, done, keptLater, written⟩ := ih (vaddr + 0x1000) (paddr + 0x1000)
        { machine with mem := Function.update machine.mem entry (mappedEntry pflags paddr) }
        (tree_kept _ _ root tree kept) (Nat.le_of_succ_le fits)
        (tables_there_next machine.mem root vaddr count _ tree.recursive kept tables)
      refine ⟨mem, ?_, tables_kept_trans machine.mem root _ mem tree.recursive kept keptLater, ?_⟩
      · rw [mapPages, checked, Option.bind_some, Bool.not_true, if_neg Bool.false_ne_true, Option.bind_some, ← mappedEntry,
          stored, Option.bind_some]
        exact done
      · have firstValue : mappedEntry pflags (pageOf paddr 0) = mappedEntry pflags paddr := by rw [page_of_zero]
        refine entries_written_cons machine.mem root vaddr count mem entry _ tree fits tables here (firstValue ▸ kept) ?_
        simp only [← page_of_next]
        exact firstValue.symm ▸ written

-- What map_range is for.
structure MapsRange (root vaddr paddr : Addr) (nPages : BitVec 32) (flags : PageFlags) (machine after : Machine) : Prop where
  mapped : ∀ index < nPages.toNat, ∃ entry, ptblEntry after.mem root (pageOf vaddr index) = some entry ∧
    after.mem entry = (pageOf paddr index &&& ~~~0xFFF) ||| (flagsToX8664 flags).setWidth 64
  others : ∀ other, (∀ index < nPages.toNat, ¬ SamePage other (pageOf vaddr index)) →
    ∀ entry, ptblEntry machine.mem root other = some entry → after.mem entry = machine.mem entry
  tables : ∀ other, ∀ level ≤ 3, levelEntry after.mem root other level = levelEntry machine.mem root other level ∧
    (level < 3 → ∀ entry, levelEntry machine.mem root other level = some entry → after.mem entry = machine.mem entry)
  frames : after.frames = machine.frames
  address : ∀ index < nPages.toNat,
    memGetPhysicalAddress root (pageOf vaddr index) after.mem = some (pageOf paddr index &&& ~~~0xFFF)
  flags : ∀ index < nPages.toNat, memGetFlags root (pageOf vaddr index) after.mem = some ((flagsToX8664 flags).setWidth 64)

theorem tables_kept_upper (mem other : Memory) (root vaddr entry : Addr) (level : Nat)
    (recursive : tableAt mem root 510 = some root) (kept : TablesKept mem other root) (low : level < 3)
    (here : levelEntry mem root vaddr level = some entry) : other entry = mem entry := by
  obtain ⟨table, on, rfl⟩ := Option.map_eq_some_iff.mp here
  rw [← table_on_strip mem root recursive] at on
  have short : (strip (pathTo vaddr level)).length ≤ 2 :=
    (List.dropWhile_sublist _).length_le.trans (by rw [path_to_length]; omega)
  exact kept _ table _ short (strip_own _ (by rw [path_to_length]; omega)) on

theorem map_range_exact (root vaddr paddr : Addr) (nPages : BitVec 32) (flags : PageFlags) (machine : Machine)
    (tree : Tree machine.mem root) (tables : TablesThere machine.mem root vaddr nPages.toNat) :
    ∃ after, mapRange root vaddr paddr nPages flags machine = some after ∧
      MapsRange root vaddr paddr nPages flags machine after := by
  have fits : nPages.toNat ≤ 2 ^ 32 := Nat.le_of_lt nPages.isLt
  obtain ⟨mem, done, kept, written⟩ :=
    map_pages_writes root (flagsToX8664 flags) nPages.toNat vaddr paddr machine tree fits tables
  have recursive := tree.recursive
  have recursiveAfter := (tree_kept machine.mem mem root tree kept).recursive
  have small : ((flagsToX8664 flags).setWidth 64).toNat < 2 ^ 12 := by
    rw [BitVec.toNat_setWidth_of_le (by decide)]
    exact flags_to_x8664_small flags
  have entries : ∀ index < nPages.toNat, ∃ entry, ptblEntry mem root (pageOf vaddr index) = some entry ∧
      mem entry = (pageOf paddr index &&& ~~~0xFFF) ||| (flagsToX8664 flags).setWidth 64 := by
    intro index below
    obtain ⟨entry, here⟩ := tables.there index below
    exact ⟨entry, (ptbl_entry_kept machine.mem root mem _ recursive kept).trans here, written.written index below entry here⟩
  have reads : ∀ index < nPages.toNat, memCheckPagetable root (pageOf vaddr index) mem = some true ∧
      loadEntry root (pageOf vaddr index) mem =
        some ((pageOf paddr index &&& ~~~0xFFF) ||| (flagsToX8664 flags).setWidth 64) := by
    intro index below
    obtain ⟨entry, here, value⟩ := entries index below
    obtain ⟨ptbl, ptblOn, _⟩ := Option.map_eq_some_iff.mp here
    exact ⟨check_there mem root _ recursiveAfter ptbl ptblOn, value ▸ load_entry_here mem root _ recursiveAfter entry here⟩
  refine ⟨{ machine with mem := mem }, done, ⟨entries, ?_, ?_, rfl, ?_, ?_⟩⟩
  · intro other apart entry here
    refine written.kept entry fun index below same => apart index below ?_
    rw [ptbl_entry_level] at here same
    exact (page_entry_shared machine.mem root _ other entry tree 3 (tables.outside index below) (Nat.le_refl 3) same here).2
  · intro other level low
    refine ⟨tables_kept_entry machine.mem mem root other recursive kept level low, fun upper entry here => ?_⟩
    exact tables_kept_upper machine.mem mem root other entry level recursive kept upper here
  · intro index below
    obtain ⟨checked, loaded⟩ := reads index below
    rw [memGetPhysicalAddress, checked, Option.bind_some, Bool.not_true, if_neg Bool.false_ne_true, loaded, Option.map_some,
      joined_address _ _ small]
  · intro index below
    obtain ⟨checked, loaded⟩ := reads index below
    rw [memGetFlags, checked, Option.bind_some, Bool.not_true, if_neg Bool.false_ne_true, loaded, Option.map_some,
      joined_flags _ _ small]

-- Tables for the addresses from 0x200000 to 0x3FFFFF, with one page mapped.
def holedTables : Memory := fun address =>
  if address = 0x1000 then 0x2001
  else if address = 0x1000 + 8 * 510 then 0x1001
  else if address = 0x2000 then 0x3001
  else if address = 0x3008 then 0x4001
  else if address = 0x4000 then 0x300001
  else 0

theorem holed_table_at (index : BitVec 9) :
    tableAt holedTables 0x1000 index = (if index = 0 then some 0x2000 else if index = 510 then some 0x1000 else none) ∧
      tableAt holedTables 0x2000 index = (if index = 0 then some 0x3000 else none) ∧
      tableAt holedTables 0x3000 index = (if index = 1 then some 0x4000 else none) := by
  revert index
  decide +kernel

theorem holed_tables_on (path : List (BitVec 9)) (table : Addr) (own : OwnPath path)
    (on : tableOn holedTables 0x1000 path = some table) :
    (path, table) ∈ [([], 0x1000), ([0], 0x2000), ([0, 0], 0x3000), ([0, 0, 1], (0x4000 : Addr))] := by
  have first : ∀ index rest, index ≠ 510 → tableOn holedTables 0x1000 (index :: rest) = some table →
      index = 0 ∧ tableOn holedTables 0x2000 rest = some table := by
    intro index rest outside on
    rw [tableOn, (holed_table_at index).1, if_neg outside] at on
    split at on
    · exact ⟨‹_›, on⟩
    · cases on
  have second : ∀ index rest, tableOn holedTables 0x2000 (index :: rest) = some table →
      index = 0 ∧ tableOn holedTables 0x3000 rest = some table := by
    intro index rest on
    rw [tableOn, (holed_table_at index).2.1] at on
    split at on
    · exact ⟨‹_›, on⟩
    · cases on
  have third : ∀ index rest, tableOn holedTables 0x3000 (index :: rest) = some table →
      index = 1 ∧ tableOn holedTables 0x4000 rest = some table := by
    intro index rest on
    rw [tableOn, (holed_table_at index).2.2] at on
    split at on
    · exact ⟨‹_›, on⟩
    · cases on
  obtain ⟨short, head⟩ := own
  cases path with
  | nil =>
      obtain rfl := Option.some.inj on
      decide
  | cons index rest =>
      obtain ⟨rfl, on⟩ := first index rest (fun same => head (congrArg some same)) on
      cases rest with
      | nil =>
          obtain rfl := Option.some.inj on
          decide
      | cons index rest =>
          obtain ⟨rfl, on⟩ := second index rest on
          cases rest with
          | nil =>
              obtain rfl := Option.some.inj on
              decide
          | cons index rest =>
              obtain ⟨rfl, on⟩ := third index rest on
              obtain rfl : rest = [] := List.eq_nil_of_length_eq_zero (by
                simp only [List.length_cons] at short
                omega)
              obtain rfl := Option.some.inj on
              decide

theorem holed_tables_tree : Tree holedTables 0x1000 where
  recursive := by decide
  distinct := by
    intro path other table own otherOwn on otherOn
    have first := holed_tables_on path table own on
    have second := holed_tables_on other table otherOwn otherOn
    simp only [List.mem_cons, Prod.mk.injEq, List.not_mem_nil, or_false] at first second
    rcases first with ⟨rfl, rfl⟩ | ⟨rfl, rfl⟩ | ⟨rfl, rfl⟩ | ⟨rfl, rfl⟩ <;>
      rcases second with ⟨rfl, same⟩ | ⟨rfl, same⟩ | ⟨rfl, same⟩ | ⟨rfl, same⟩ <;>
        first
          | rfl
          | exact absurd same (by decide)

theorem holed_tables_there : TablesThere holedTables 0x1000 0x3FE123 2 where
  outside := by
    intro index below
    have cases : index = 0 ∨ index = 1 := by omega
    rcases cases with rfl | rfl <;> decide
  there := by
    intro index below
    have cases : index = 0 ∨ index = 1 := by omega
    rcases cases with rfl | rfl
    · exact ⟨0x4FF0, by decide⟩
    · exact ⟨0x4FF8, by decide⟩

theorem last_pages_mapped : ∃ after, mapRange 0x1000 0x3FE123 0x7654321 2
    ⟨false, false, false, false, false, false, false, true, true⟩ ⟨holedTables, []⟩ = some after ∧
      MapsRange 0x1000 0x3FE123 0x7654321 2 ⟨false, false, false, false, false, false, false, true, true⟩ ⟨holedTables, []⟩ after :=
  map_range_exact 0x1000 0x3FE123 0x7654321 2 _ ⟨holedTables, []⟩ holed_tables_tree holed_tables_there

end Kraftwerk.Paging
