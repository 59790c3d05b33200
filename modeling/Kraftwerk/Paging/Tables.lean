import Kraftwerk.Paging.Window
import Mathlib.Data.List.Infix
import Mathlib.Logic.Function.Basic

set_option autoImplicit false

-- The tables under a PML4 by the indices that lead to them, and which entries the
-- walk of an address reads.
namespace Kraftwerk.Paging

def tableOn (mem : Memory) : Addr → List (BitVec 9) → Option Addr
  | table, [] => some table
  | table, index :: rest => (tableAt mem table index).bind fun next => tableOn mem next rest

def Aligned (table : Addr) : Prop := table.toNat % 4096 = 0

-- A path that does not start with the recursive slot.
def OwnPath (path : List (BitVec 9)) : Prop := path.length ≤ 3 ∧ path.head? ≠ some 510

structure Tree (mem : Memory) (root : Addr) : Prop where
  recursive : tableAt mem root 510 = some root
  distinct : ∀ path other table, OwnPath path → OwnPath other → tableOn mem root path = some table →
    tableOn mem root other = some table → path = other

theorem frame_aligned (entry : BitVec 64) : Aligned (frame entry) := by
  rw [Aligned, frame, BitVec.toNat_and, show (4096 : Nat) = 2 ^ 12 by rfl, Nat.and_mod_two_pow]
  exact Nat.and_zero _

theorem table_at_aligned (mem : Memory) (table next : Addr) (index : BitVec 9)
    (pointed : tableAt mem table index = some next) : Aligned next := by
  rw [tableAt] at pointed
  split at pointed
  · obtain rfl := Option.some.inj pointed
    exact frame_aligned _
  · cases pointed

theorem entry_addr_to_nat (table : Addr) (index : BitVec 9) (aligned : Aligned table) :
    (entryAddr table index).toNat = table.toNat + 8 * index.toNat := by
  have bound := index.isLt
  have address := table.isLt
  rw [Aligned] at aligned
  have product : (8#64 * index.setWidth 64).toNat = 8 * index.toNat := by
    rw [BitVec.toNat_mul, BitVec.toNat_setWidth, BitVec.toNat_ofNat]
    omega
  rw [entryAddr, BitVec.toNat_add]
  exact (congrArg (fun offset => (table.toNat + offset) % 2 ^ 64) product).trans (Nat.mod_eq_of_lt (by omega))

theorem entry_addr_inj (table other : Addr) (index otherIndex : BitVec 9) (aligned : Aligned table) (otherAligned : Aligned other)
    (same : entryAddr table index = entryAddr other otherIndex) : table = other ∧ index = otherIndex := by
  have numbers := congrArg BitVec.toNat same
  rw [entry_addr_to_nat table index aligned, entry_addr_to_nat other otherIndex otherAligned] at numbers
  have bound := index.isLt
  have otherBound := otherIndex.isLt
  rw [Aligned] at aligned otherAligned
  exact ⟨BitVec.eq_of_toNat_eq (by omega), BitVec.eq_of_toNat_eq (by omega)⟩

theorem table_on_append (mem : Memory) (root : Addr) (path rest : List (BitVec 9)) :
    tableOn mem root (path ++ rest) = (tableOn mem root path).bind fun table => tableOn mem table rest := by
  induction path generalizing root with
  | nil => rfl
  | cons index path ih =>
      rw [List.cons_append, tableOn, tableOn, Option.bind_assoc]
      exact Option.bind_congr fun next _ => ih next

theorem table_on_aligned (mem : Memory) (root table : Addr) (path : List (BitVec 9)) (aligned : Aligned root)
    (on : tableOn mem root path = some table) : Aligned table := by
  induction path generalizing root with
  | nil => exact Option.some.inj on ▸ aligned
  | cons index path ih =>
      obtain ⟨next, pointed, later⟩ := Option.bind_eq_some_iff.mp on
      exact ih next (table_at_aligned mem root next index pointed) later

theorem table_on_single (mem : Memory) (table : Addr) (index : BitVec 9) :
    tableOn mem table [index] = tableAt mem table index := by
  rw [tableOn]
  cases tableAt mem table index <;> rfl

-- What is left of a path once it has passed through the recursive slot.
def strip (path : List (BitVec 9)) : List (BitVec 9) := path.dropWhile (· == 510)

theorem strip_own (path : List (BitVec 9)) (short : path.length ≤ 3) : OwnPath (strip path) := by
  refine ⟨(List.dropWhile_sublist _).length_le.trans short, fun first => ?_⟩
  have stops := List.head?_dropWhile_not (fun index : BitVec 9 => index == 510) path
  rw [strip] at first
  rw [first] at stops
  exact Bool.noConfusion stops

theorem table_on_strip (mem : Memory) (root : Addr) (recursive : tableAt mem root 510 = some root) (path : List (BitVec 9)) :
    tableOn mem root (strip path) = tableOn mem root path := by
  induction path with
  | nil => rfl
  | cons index rest ih =>
      rw [strip, List.dropWhile_cons]
      by_cases slot : index = 510
      · rw [if_pos (by simpa using slot), ← strip, ih, tableOn, slot, recursive]
        rfl
      · rw [if_neg (by simpa using slot)]

-- The indices that lead to the table of each level: 0 is the PML4, 3 a page table.
def pathTo (vaddr : Addr) : Nat → List (BitVec 9)
  | 0 => []
  | level + 1 => pathTo vaddr level ++ [walkIndex vaddr (39 - 9 * level)]

theorem level_cases (level : Nat) (low : level ≤ 3) : level = 0 ∨ level = 1 ∨ level = 2 ∨ level = 3 := by omega

theorem upper_level_cases (level : Nat) (low : level ≤ 2) : level = 0 ∨ level = 1 ∨ level = 2 := by omega

def levelEntry (mem : Memory) (root vaddr : Addr) (level : Nat) : Option Addr :=
  (tableOn mem root (pathTo vaddr level)).map fun table => entryAddr table (walkIndex vaddr (39 - 9 * level))

-- The addresses of one page.
def SamePage (vaddr other : Addr) : Prop := pathTo vaddr 4 = pathTo other 4

def OutsideSlot (vaddr : Addr) : Prop := walkIndex vaddr 39 ≠ 510

instance (vaddr : Addr) : Decidable (OutsideSlot vaddr) := inferInstanceAs (Decidable (walkIndex vaddr 39 ≠ 510))

section
variable (mem : Memory) (root vaddr : Addr)

theorem pdpt_on_path : pdptOf mem root vaddr = tableOn mem root (pathTo vaddr 1) :=
  (table_on_single mem root (walkIndex vaddr 39)).symm

theorem table_on_next (level : Nat) : tableOn mem root (pathTo vaddr (level + 1)) =
    (tableOn mem root (pathTo vaddr level)).bind fun table => tableAt mem table (walkIndex vaddr (39 - 9 * level)) := by
  rw [pathTo, table_on_append]
  exact Option.bind_congr fun table _ => table_on_single mem table _

theorem pdir_on_path : pdirOf mem root vaddr = tableOn mem root (pathTo vaddr 2) := by
  rw [table_on_next, ← pdpt_on_path]
  rfl

theorem ptbl_on_path : ptblOf mem root vaddr = tableOn mem root (pathTo vaddr 3) := by
  rw [table_on_next, ← pdir_on_path]
  rfl

theorem pdpt_entry_level : pdptEntry mem root vaddr = levelEntry mem root vaddr 1 := by
  rw [pdptEntry, pdpt_on_path, levelEntry]

theorem pdir_entry_level : pdirEntry mem root vaddr = levelEntry mem root vaddr 2 := by
  rw [pdirEntry, pdir_on_path, levelEntry]

theorem ptbl_entry_level : ptblEntry mem root vaddr = levelEntry mem root vaddr 3 := by
  rw [ptblEntry, ptbl_on_path, levelEntry]

theorem pml4_entry_level : levelEntry mem root vaddr 0 = some (pml4Entry root vaddr) := rfl

end

@[simp] theorem path_to_length (vaddr : Addr) (level : Nat) : (pathTo vaddr level).length = level := by
  induction level with
  | zero => rfl
  | succ level ih => rw [pathTo, List.length_append, ih, List.length_singleton]

theorem path_to_head (vaddr : Addr) (level : Nat) : (pathTo vaddr (level + 1)).head? = some (walkIndex vaddr 39) := by
  induction level with
  | zero => rfl
  | succ level ih =>
      rw [pathTo, List.head?_append, ih]
      rfl

theorem path_to_prefix (vaddr : Addr) (level more : Nat) : pathTo vaddr level <+: pathTo vaddr (level + more) := by
  induction more with
  | zero => exact List.prefix_rfl
  | succ more ih => exact ih.trans (List.prefix_append _ _)

-- Addresses that share their indices up to a level share them up to each level above it.
theorem path_to_above (vaddr other : Addr) (level more : Nat) (same : pathTo vaddr (level + more) = pathTo other (level + more)) :
    pathTo vaddr level = pathTo other level := by
  have first := path_to_prefix vaddr level more
  have second := path_to_prefix other level more
  rw [same] at first
  exact List.IsPrefix.eq_of_length (List.prefix_of_prefix_length_le first second (by simp)) (by simp)

theorem path_to_extend (vaddr other : Addr) (level : Nat) : pathTo vaddr (level + 1) = pathTo other (level + 1) ↔
    pathTo vaddr level = pathTo other level ∧ walkIndex vaddr (39 - 9 * level) = walkIndex other (39 - 9 * level) := by
  constructor
  · intro same
    refine ⟨path_to_above vaddr other level 1 same, ?_⟩
    rw [pathTo, pathTo] at same
    exact List.singleton_inj.mp (List.append_inj_right' same rfl)
  · rintro ⟨path, index⟩
    rw [pathTo, pathTo, path, index]

theorem path_to_own (vaddr : Addr) (level : Nat) (outside : OutsideSlot vaddr) (low : level ≤ 3) : OwnPath (pathTo vaddr level) := by
  refine ⟨(path_to_length vaddr level).trans_le low, ?_⟩
  cases level with
  | zero => exact fun first => by cases first
  | succ level =>
      rw [path_to_head]
      exact fun same => outside (Option.some.inj same)

theorem strip_path_to (vaddr : Addr) (level : Nat) (outside : OutsideSlot vaddr) : strip (pathTo vaddr level) = pathTo vaddr level := by
  cases level with
  | zero => rfl
  | succ level =>
      obtain ⟨rest, split⟩ := List.head?_eq_some_iff.mp (path_to_head vaddr level)
      rw [split, strip, List.dropWhile_cons, if_neg (by rwa [beq_iff_eq])]

theorem root_aligned (mem : Memory) (root : Addr) (recursive : tableAt mem root 510 = some root) : Aligned root :=
  table_at_aligned mem root root 510 recursive

theorem same_entry_path (mem : Memory) (root table otherTable : Addr) (tree : Tree mem root) (path other : List (BitVec 9))
    (index otherIndex : BitVec 9) (short : path.length ≤ 3) (own : OwnPath other) (on : tableOn mem root path = some table)
    (onOther : tableOn mem root other = some otherTable) (same : entryAddr table index = entryAddr otherTable otherIndex) :
    strip path = other ∧ index = otherIndex := by
  have aligned := root_aligned mem root tree.recursive
  obtain ⟨rfl, rfl⟩ := entry_addr_inj table otherTable index otherIndex (table_on_aligned mem root table path aligned on)
    (table_on_aligned mem root otherTable other aligned onOther) same
  rw [← table_on_strip mem root tree.recursive] at on
  exact ⟨tree.distinct _ _ table (strip_own path short) own on onOther, rfl⟩

-- An entry of an address outside the recursive slot is at its own level of any other address that uses it.
theorem level_entry_shared (mem : Memory) (root vaddr other entry : Addr) (tree : Tree mem root) (level otherLevel : Nat)
    (outside : OutsideSlot vaddr) (low : level ≤ 3) (otherLow : otherLevel ≤ 3)
    (here : levelEntry mem root vaddr level = some entry) (there : levelEntry mem root other otherLevel = some entry) :
    strip (pathTo other otherLevel) = pathTo vaddr level ∧ walkIndex other (39 - 9 * otherLevel) = walkIndex vaddr (39 - 9 * level) := by
  obtain ⟨table, on, rfl⟩ := Option.map_eq_some_iff.mp here
  obtain ⟨otherTable, onOther, same⟩ := Option.map_eq_some_iff.mp there
  exact same_entry_path mem root otherTable table tree _ _ _ _ ((path_to_length other otherLevel).trans_le otherLow)
    (path_to_own vaddr level outside low) onOther on same

theorem outside_entry_shared (mem : Memory) (root vaddr other entry : Addr) (tree : Tree mem root) (level otherLevel : Nat)
    (outside : OutsideSlot vaddr) (otherOutside : OutsideSlot other) (low : level ≤ 3) (otherLow : otherLevel ≤ 3)
    (here : levelEntry mem root vaddr level = some entry) (there : levelEntry mem root other otherLevel = some entry) :
    otherLevel = level ∧ pathTo other (level + 1) = pathTo vaddr (level + 1) := by
  obtain ⟨path, index⟩ :=
    level_entry_shared mem root vaddr other entry tree level otherLevel outside low otherLow here there
  rw [strip_path_to other otherLevel otherOutside] at path
  obtain rfl : otherLevel = level := by simpa using congrArg List.length path
  exact ⟨rfl, (path_to_extend other vaddr otherLevel).mpr ⟨path, index⟩⟩

-- A page table's entry belongs to one page, and to no table of another level.
theorem page_entry_shared (mem : Memory) (root vaddr other entry : Addr) (tree : Tree mem root) (otherLevel : Nat)
    (outside : OutsideSlot vaddr) (otherLow : otherLevel ≤ 3) (here : levelEntry mem root vaddr 3 = some entry)
    (there : levelEntry mem root other otherLevel = some entry) : otherLevel = 3 ∧ SamePage other vaddr := by
  obtain ⟨path, index⟩ :=
    level_entry_shared mem root vaddr other entry tree 3 otherLevel outside (Nat.le_refl 3) otherLow here there
  have kept : (strip (pathTo other otherLevel)).length ≤ (pathTo other otherLevel).length := (List.dropWhile_sublist _).length_le
  rw [path, path_to_length, path_to_length] at kept
  obtain rfl : otherLevel = 3 := by omega
  have whole : strip (pathTo other 3) = pathTo other 3 := by
    refine (List.dropWhile_sublist _).eq_of_length ?_
    rw [← strip, path, path_to_length, path_to_length]
  exact ⟨rfl, (path_to_extend other vaddr 3).mpr ⟨whole.symm.trans path, index⟩⟩

theorem table_on_congr (mem other : Memory) (root : Addr) (path : List (BitVec 9))
    (same : ∀ front index rest table, path = front ++ index :: rest → tableOn mem root front = some table →
      other (entryAddr table index) = mem (entryAddr table index)) : tableOn other root path = tableOn mem root path := by
  induction path generalizing root with
  | nil => rfl
  | cons index path ih =>
      have here : tableAt other root index = tableAt mem root index := by
        rw [tableAt, tableAt, same [] index path root rfl rfl]
      rw [tableOn, tableOn, here]
      refine Option.bind_congr fun next pointed => ih next fun front later rest table split on => ?_
      refine same (index :: front) later rest table (by rw [split, List.cons_append]) ?_
      rw [tableOn, pointed]
      exact on

-- The entries that the walk of an address reads at the first levels.
def SameEntries (mem other : Memory) (root vaddr : Addr) (levels : Nat) : Prop :=
  ∀ level < levels, ∀ entry, levelEntry mem root vaddr level = some entry → other entry = mem entry

section
variable (mem other : Memory) (root vaddr : Addr)

theorem same_tables (levels level : Nat) (same : SameEntries mem other root vaddr levels) (low : level ≤ levels) :
    tableOn other root (pathTo vaddr level) = tableOn mem root (pathTo vaddr level) := by
  induction level with
  | zero => rfl
  | succ level ih =>
      rw [table_on_next, table_on_next, ih (Nat.le_of_succ_le low)]
      refine Option.bind_congr fun table on => ?_
      have entry := same level low (entryAddr table (walkIndex vaddr (39 - 9 * level))) (by rw [levelEntry, on]; rfl)
      rw [tableAt, tableAt, entry]

theorem same_level_entry (levels level : Nat) (same : SameEntries mem other root vaddr levels) (low : level ≤ levels) :
    levelEntry other root vaddr level = levelEntry mem root vaddr level := by
  rw [levelEntry, levelEntry, same_tables mem other root vaddr levels level same low]

theorem same_walk (same : SameEntries mem other root vaddr 4) : walk other root vaddr = walk mem root vaddr := by
  have tables := fun level low => same_tables mem other root vaddr 4 level same low
  have entries : ∀ level < 4, ∀ table, tableOn mem root (pathTo vaddr level) = some table →
      other (entryAddr table (walkIndex vaddr (39 - 9 * level))) = mem (entryAddr table (walkIndex vaddr (39 - 9 * level))) :=
    fun level low table on => same level low _ (by rw [levelEntry, on]; rfl)
  have pages := entries 3 (by decide)
  have largePages := entries 2 (by decide)
  have largestPages := entries 1 (by decide)
  rw [walk, walk, ptbl_on_path, ptbl_on_path, pdir_on_path, pdir_on_path, pdpt_on_path, pdpt_on_path, tables 3 (by decide),
    tables 2 (by decide), tables 1 (by decide)]
  cases ptbl : tableOn mem root (pathTo vaddr 3) with
  | some table =>
      dsimp only
      rw [pageAt, pageAt, pages table ptbl]
  | none =>
      cases pdir : tableOn mem root (pathTo vaddr 2) with
      | some table =>
          dsimp only
          rw [hugePageAt, hugePageAt, largePages table pdir]
      | none =>
          refine Option.bind_congr fun table pdpt => ?_
          rw [hugePageAt, hugePageAt, largestPages table pdpt]

theorem absent_below (level more : Nat) (entry : Addr) (here : levelEntry mem root vaddr level = some entry)
    (absent : present (mem entry) = false) : tableOn mem root (pathTo vaddr (level + 1 + more)) = none := by
  obtain ⟨table, on, rfl⟩ := Option.map_eq_some_iff.mp here
  induction more with
  | zero =>
      rw [Nat.add_zero, table_on_next, on, Option.bind_some, tableAt, absent, Bool.false_and, if_neg Bool.false_ne_true]
  | succ more ih =>
      rw [← Nat.add_assoc, table_on_next, ih]
      rfl

theorem walk_absent (level : Nat) (entry : Addr) (low : level ≤ 3) (here : levelEntry mem root vaddr level = some entry)
    (absent : present (mem entry) = false) : walk mem root vaddr = none := by
  have below := fun more => absent_below mem root vaddr level more entry here absent
  obtain ⟨table, on, rfl⟩ := Option.map_eq_some_iff.mp here
  rw [walk, ptbl_on_path, pdir_on_path, pdpt_on_path]
  rcases level_cases level low with rfl | rfl | rfl | rfl
  · rw [below 2, below 1, below 0, Option.bind_none]
  · rw [below 1, below 0, on, Option.bind_some, hugePageAt, absent, Bool.false_and, if_neg Bool.false_ne_true, Option.map_none]
  · rw [below 0, on]
    dsimp only
    rw [hugePageAt, absent, Bool.false_and, if_neg Bool.false_ne_true, Option.map_none]
  · rw [on]
    dsimp only
    rw [pageAt, absent, if_neg Bool.false_ne_true, Option.map_none]

end

end Kraftwerk.Paging
