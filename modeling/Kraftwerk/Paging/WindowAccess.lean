import Kraftwerk.Paging.PageManip
import Kraftwerk.Paging.RecursiveSlot
import Kraftwerk.Paging.Tables

set_option autoImplicit false

-- What the accesses of page_manip.cpp read and write, and which tables stay as they are.
namespace Kraftwerk.Paging

def window (vaddr : Addr) : Nat → Addr
  | 0 => slot memPml4tAddr (memPml4Index vaddr)
  | 1 => slot (memPdptAddr vaddr) (memPdptIndex vaddr)
  | 2 => slot (memPdirAddr vaddr) (memPdirIndex vaddr)
  | _ => slot (memPtblAddr vaddr) (memPtblIndex vaddr)

section
variable (mem : Memory) (root vaddr : Addr)

theorem walk_window (recursive : tableAt mem root 510 = some root) (level : Nat) (entry : Addr) (low : level ≤ 3)
    (here : levelEntry mem root vaddr level = some entry) : walk mem root (window vaddr level) = some entry := by
  rcases level_cases level low with rfl | rfl | rfl | rfl
  · obtain rfl := Option.some.inj here
    exact pml4_window mem root vaddr recursive
  · exact pdpt_window mem root vaddr entry recursive ((pdpt_entry_level mem root vaddr).trans here)
  · exact pdir_window mem root vaddr entry recursive ((pdir_entry_level mem root vaddr).trans here)
  · exact ptbl_window mem root vaddr entry recursive ((ptbl_entry_level mem root vaddr).trans here)

theorem load_window (recursive : tableAt mem root 510 = some root) (level : Nat) (entry : Addr) (low : level ≤ 3)
    (here : levelEntry mem root vaddr level = some entry) : load root mem (window vaddr level) = some (mem entry) := by
  rw [load, walk_window mem root vaddr recursive level entry low here, Option.map_some]

theorem store_window (recursive : tableAt mem root 510 = some root) (level : Nat) (entry : Addr) (low : level ≤ 3)
    (here : levelEntry mem root vaddr level = some entry) (value : BitVec 64) :
    store root mem (window vaddr level) value = some (Function.update mem entry value) := by
  rw [store, walk_window mem root vaddr recursive level entry low here, Option.map_some]

theorem check_windows : memCheckPagetable root vaddr mem =
    (load root mem (window vaddr 0)).bind fun pml4e =>
      if !present pml4e then some false
      else
        (load root mem (window vaddr 1)).bind fun pdpte =>
          if !present pdpte then some false
          else (load root mem (window vaddr 2)).bind fun pde => if !present pde then some false else some true := rfl

theorem table_entry (level : Nat) (table : Addr) (on : tableOn mem root (pathTo vaddr (level + 1)) = some table) :
    ∃ entry, levelEntry mem root vaddr level = some entry ∧ present (mem entry) = true ∧ huge (mem entry) = false ∧
      frame (mem entry) = table := by
  rw [table_on_next] at on
  obtain ⟨above, aboveOn, pointed⟩ := Option.bind_eq_some_iff.mp on
  rw [tableAt] at pointed
  split at pointed
  · rename_i usable
    obtain ⟨there, small⟩ := Bool.and_eq_true_iff.mp usable
    exact ⟨_, by rw [levelEntry, aboveOn, Option.map_some], there, (Bool.not_eq_true' _).mp small, Option.some.inj pointed⟩
  · cases pointed

theorem level_entry_on (level : Nat) (table : Addr) (on : tableOn mem root (pathTo vaddr level) = some table) :
    levelEntry mem root vaddr level = some (entryAddr table (walkIndex vaddr (39 - 9 * level))) := by
  rw [levelEntry, on, Option.map_some]

theorem table_above (level : Nat) (table : Addr) (on : tableOn mem root (pathTo vaddr (level + 1)) = some table) :
    ∃ above, tableOn mem root (pathTo vaddr level) = some above := by
  rw [table_on_next] at on
  obtain ⟨above, aboveOn, _⟩ := Option.bind_eq_some_iff.mp on
  exact ⟨above, aboveOn⟩

theorem check_there (recursive : tableAt mem root 510 = some root) (table : Addr) (there : ptblOf mem root vaddr = some table) :
    memCheckPagetable root vaddr mem = some true := by
  rw [ptbl_on_path] at there
  obtain ⟨pdir, pdirOn⟩ := table_above mem root vaddr 2 table there
  obtain ⟨pdpt, pdptOn⟩ := table_above mem root vaddr 1 pdir pdirOn
  obtain ⟨pml4e, pml4eHere, pml4eThere, _⟩ := table_entry mem root vaddr 0 pdpt pdptOn
  obtain ⟨pdpte, pdpteHere, pdpteThere, _⟩ := table_entry mem root vaddr 1 pdir pdirOn
  obtain ⟨pde, pdeHere, pdeThere, _⟩ := table_entry mem root vaddr 2 table there
  have pml4Load := load_window mem root vaddr recursive 0 pml4e (by decide) pml4eHere
  have pdptLoad := load_window mem root vaddr recursive 1 pdpte (by decide) pdpteHere
  have pdirLoad := load_window mem root vaddr recursive 2 pde (by decide) pdeHere
  simp [check_windows, pml4Load, pdptLoad, pdirLoad, pml4eThere, pdpteThere, pdeThere]

-- A present entry above the one that is looked at.
theorem entry_above (level : Nat) (entry : Addr) (here : levelEntry mem root vaddr (level + 1) = some entry) :
    ∃ above, levelEntry mem root vaddr level = some above ∧ present (mem above) = true := by
  obtain ⟨table, on, _⟩ := Option.map_eq_some_iff.mp here
  obtain ⟨above, aboveHere, there, _⟩ := table_entry mem root vaddr level table on
  exact ⟨above, aboveHere, there⟩

theorem check_absent (recursive : tableAt mem root 510 = some root) (level : Nat) (entry : Addr) (low : level ≤ 2)
    (here : levelEntry mem root vaddr level = some entry) (absent : present (mem entry) = false) :
    memCheckPagetable root vaddr mem = some false := by
  have loads := fun level entry low here => load_window mem root vaddr recursive level entry low here
  rcases upper_level_cases level low with rfl | rfl | rfl
  · have pml4Load := loads 0 entry (by decide) here
    simp [check_windows, pml4Load, absent]
  · obtain ⟨pml4e, pml4eHere, _⟩ := entry_above mem root vaddr 0 entry here
    have pml4Load := loads 0 pml4e (by decide) pml4eHere
    have pdptLoad := loads 1 entry (by decide) here
    simp [check_windows, pml4Load, pdptLoad, absent]
  · obtain ⟨pdpte, pdpteHere, _⟩ := entry_above mem root vaddr 1 entry here
    obtain ⟨pml4e, pml4eHere, _⟩ := entry_above mem root vaddr 0 pdpte pdpteHere
    have pml4Load := loads 0 pml4e (by decide) pml4eHere
    have pdptLoad := loads 1 pdpte (by decide) pdpteHere
    have pdirLoad := loads 2 entry (by decide) here
    simp [check_windows, pml4Load, pdptLoad, pdirLoad, absent]

theorem load_entry_here (recursive : tableAt mem root 510 = some root) (entry : Addr)
    (here : ptblEntry mem root vaddr = some entry) : loadEntry root vaddr mem = some (mem entry) :=
  load_window mem root vaddr recursive 3 entry (Nat.le_refl 3) ((ptbl_entry_level mem root vaddr).symm.trans here)

theorem store_entry_here (recursive : tableAt mem root 510 = some root) (entry : Addr)
    (here : ptblEntry mem root vaddr = some entry) (value : BitVec 64) :
    storeEntry root vaddr mem value = some (Function.update mem entry value) :=
  store_window mem root vaddr recursive 3 entry (Nat.le_refl 3) ((ptbl_entry_level mem root vaddr).symm.trans here) value

end

theorem write_elsewhere (mem : Memory) (entry address : Addr) (value : BitVec 64) (apart : address ≠ entry) :
    Function.update mem entry value address = mem address := by
  rw [Function.update_apply, if_neg apart]

-- No entry above the page tables is changed.
def TablesKept (mem other : Memory) (root : Addr) : Prop :=
  ∀ path table index, path.length ≤ 2 → OwnPath path → tableOn mem root path = some table →
    other (entryAddr table index) = mem (entryAddr table index)

section
variable (mem other : Memory) (root vaddr : Addr)

theorem tables_kept_on (recursive : tableAt mem root 510 = some root) (kept : TablesKept mem other root) (path : List (BitVec 9))
    (short : path.length ≤ 3) : tableOn other root path = tableOn mem root path := by
  refine table_on_congr mem other root path fun front index rest table split on => ?_
  rw [← table_on_strip mem root recursive] at on
  rw [split, List.length_append, List.length_cons] at short
  have shorter : front.length ≤ 2 := by omega
  exact kept (strip front) table index ((List.dropWhile_sublist _).length_le.trans shorter)
    (strip_own front (shorter.trans (by decide))) on

theorem tree_kept (tree : Tree mem root) (kept : TablesKept mem other root) : Tree other root where
  recursive := by
    have same := tables_kept_on mem other root tree.recursive kept [510] (by decide)
    rw [table_on_single, table_on_single] at same
    exact same.trans tree.recursive
  distinct := by
    intro path another table own anotherOwn on anotherOn
    rw [tables_kept_on mem other root tree.recursive kept path own.1] at on
    rw [tables_kept_on mem other root tree.recursive kept another anotherOwn.1] at anotherOn
    exact tree.distinct path another table own anotherOwn on anotherOn

theorem tables_kept_entry (recursive : tableAt mem root 510 = some root) (kept : TablesKept mem other root) (level : Nat)
    (low : level ≤ 3) : levelEntry other root vaddr level = levelEntry mem root vaddr level := by
  rw [levelEntry, levelEntry, tables_kept_on mem other root recursive kept _ ((path_to_length vaddr level).trans_le low)]

end

section
variable (mem : Memory) (root vaddr entry : Addr) (value : BitVec 64)

theorem page_write_kept (tree : Tree mem root) (outside : OutsideSlot vaddr) (here : levelEntry mem root vaddr 3 = some entry) :
    TablesKept mem (Function.update mem entry value) root := by
  obtain ⟨ptbl, ptblOn, rfl⟩ := Option.map_eq_some_iff.mp here
  intro path table index short own on
  refine write_elsewhere mem _ _ value (fun same => ?_)
  have shared := (same_entry_path mem root table ptbl tree path _ index _ own.1 (path_to_own vaddr 3 outside (Nat.le_refl 3))
    on ptblOn same).1
  have kept : (strip path).length ≤ path.length := (List.dropWhile_sublist _).length_le
  rw [shared, path_to_length] at kept
  omega

theorem page_write_elsewhere (tree : Tree mem root) (outside : OutsideSlot vaddr)
    (here : levelEntry mem root vaddr 3 = some entry) (other : Addr) (apart : ¬ SamePage other vaddr) :
    SameEntries mem (Function.update mem entry value) root other 4 := by
  intro level low shared there
  refine write_elsewhere mem _ _ value (fun same => apart ?_)
  exact (page_entry_shared mem root vaddr other entry tree level outside (Nat.le_of_lt_succ low) here (same ▸ there)).2

end

end Kraftwerk.Paging
