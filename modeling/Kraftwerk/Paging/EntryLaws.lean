import Kraftwerk.Paging.UnmapRange

set_option autoImplicit false

-- The laws of mem_set_mmu_entry, mem_set_physical_address and mem_set_flags. None of
-- them makes the tables that it writes to.
namespace Kraftwerk.Paging

-- The entry of a page, 0 where there is no table for it.
def entryOf (mem : Memory) (root vaddr : Addr) : BitVec 64 :=
  match ptblEntry mem root vaddr with
  | some entry => mem entry
  | none => 0

-- The word that holds an address's entry is used for no other page, and at no level above.
def OwnEntry (mem : Memory) (root vaddr : Addr) : Prop :=
  ∀ entry, ptblEntry mem root vaddr = some entry → ∀ page level, level ≤ 3 →
    levelEntry mem root page level = some entry → level = 3 ∧ SamePage page vaddr

structure EntrySet (mem other : Memory) (root vaddr : Addr) (value : BitVec 64) : Prop where
  here : entryOf other root vaddr = value
  others : ∀ page, ¬ SamePage page vaddr → entryOf other root page = entryOf mem root page

structure SettersObey (mem : Memory) (root vaddr : Addr) : Prop where
  mmuEntry : ∀ entry : PageEntry, ∃ other, memSetMmuEntry root vaddr entry mem = some other ∧
    EntrySet mem other root vaddr entry.toRaw ∧
    memGetMmuEntry root vaddr other = some { entry with address := entry.address &&& ~~~0xFFF }
  physicalAddress : ∀ paddr : Addr, ∃ other, memSetPhysicalAddress root vaddr paddr mem = some other ∧
    EntrySet mem other root vaddr ((paddr &&& ~~~0xFFF) ||| (entryOf mem root vaddr &&& 0xFFF)) ∧
    memGetPhysicalAddress root vaddr other = some (paddr &&& ~~~0xFFF)
  flags : ∀ flags : BitVec 16, ∃ other, memSetFlags root vaddr flags mem = some other ∧
    EntrySet mem other root vaddr ((entryOf mem root vaddr &&& ~~~0xFFF) ||| (flags &&& 0xFFF).setWidth 64) ∧
    memGetFlags root vaddr other = some ((flags &&& 0xFFF).setWidth 64)

section
variable (mem : Memory) (root vaddr : Addr)

theorem entry_of_some (entry : Addr) (here : ptblEntry mem root vaddr = some entry) : entryOf mem root vaddr = mem entry := by
  rw [entryOf, here]

theorem same_entry_of (other : Memory) (same : SameEntries mem other root vaddr 4) :
    entryOf other root vaddr = entryOf mem root vaddr := by
  have equal := same_level_entry mem other root vaddr 4 3 same (by decide)
  rw [← ptbl_entry_level, ← ptbl_entry_level] at equal
  rw [entryOf, entryOf, equal]
  cases here : ptblEntry mem root vaddr with
  | none => rfl
  | some entry => exact same 3 (by decide) entry ((ptbl_entry_level mem root vaddr).symm.trans here)

theorem tree_own_entry (tree : Tree mem root) (outside : OutsideSlot vaddr) : OwnEntry mem root vaddr := by
  intro entry here page level low there
  rw [ptbl_entry_level] at here
  exact page_entry_shared mem root vaddr page entry tree level outside low here there

-- After a store to the entry the tables are there as before, and no other page's entry is another one.
structure Stored (other : Memory) (value : BitVec 64) : Prop where
  recursive : tableAt other root 510 = some root
  there : memCheckPagetable root vaddr other = some true
  loaded : loadEntry root vaddr other = some value
  set : EntrySet mem other root vaddr value

theorem own_entry_stored (recursive : tableAt mem root 510 = some root) (entry : Addr)
    (here : ptblEntry mem root vaddr = some entry) (own : OwnEntry mem root vaddr) (value : BitVec 64) :
    Stored mem root vaddr (Function.update mem entry value) value := by
  have elsewhere : ∀ page, ¬ SamePage page vaddr → SameEntries mem (Function.update mem entry value) root page 4 := by
    intro page apart level low shared there
    refine write_elsewhere mem entry shared value fun same => apart ?_
    exact (own entry here page level (Nat.le_of_lt_succ low) (same ▸ there)).2
  have upper : ∀ page, SameEntries mem (Function.update mem entry value) root page 3 := by
    intro page level low shared there
    refine write_elsewhere mem entry shared value fun same => ?_
    have bottom := (own entry here page level (Nat.le_of_lt low) (same ▸ there)).1
    omega
  have recursiveAfter : tableAt (Function.update mem entry value) root 510 = some root := by
    have slot : walkIndex memPml4tAddr 39 = 510 := by decide
    have kept := same_tables mem _ root memPml4tAddr 3 1 (upper memPml4tAddr) (by decide)
    rw [← pdpt_on_path, ← pdpt_on_path, pdptOf, pdptOf, slot] at kept
    exact kept.trans recursive
  have hereAfter : ptblEntry (Function.update mem entry value) root vaddr = some entry := by
    rw [ptbl_entry_level, same_level_entry mem _ root vaddr 3 3 (upper vaddr) (Nat.le_refl 3), ← ptbl_entry_level, here]
  obtain ⟨ptbl, ptblOn, _⟩ := Option.map_eq_some_iff.mp hereAfter
  have written : Function.update mem entry value entry = value := Function.update_self ..
  refine ⟨recursiveAfter, check_there _ root vaddr recursiveAfter ptbl ptblOn, ?_, ?_, ?_⟩
  · rw [load_entry_here _ root vaddr recursiveAfter entry hereAfter, written]
  · rw [entry_of_some _ root vaddr entry hereAfter, written]
  · exact fun page apart => same_entry_of mem root page _ (elsewhere page apart)

theorem flags_word (word : BitVec 64) : ((word &&& 0xFFF).setWidth 16).setWidth 64 = word &&& 0xFFF := by
  have small := flags_small word
  apply BitVec.eq_of_toNat_eq
  rw [BitVec.toNat_setWidth_of_le (by decide), BitVec.toNat_setWidth, Nat.mod_eq_of_lt (Nat.lt_trans small (by decide))]

theorem setters_obey_own (recursive : tableAt mem root 510 = some root) (there : ptblEntry mem root vaddr ≠ none)
    (own : OwnEntry mem root vaddr) : SettersObey mem root vaddr := by
  obtain ⟨entry, here⟩ := Option.ne_none_iff_exists'.mp there
  obtain ⟨ptbl, ptblOn, _⟩ := Option.map_eq_some_iff.mp here
  have checked := check_there mem root vaddr recursive ptbl ptblOn
  have loaded := load_entry_here mem root vaddr recursive entry here
  have stores := store_entry_here mem root vaddr recursive entry here
  have stored := own_entry_stored mem root vaddr recursive entry here own
  have old := entry_of_some mem root vaddr entry here
  refine ⟨fun value => ⟨_, ?_, (stored value.toRaw).set, ?_⟩, fun paddr => ⟨_, ?_, (stored _).set, ?_⟩,
    fun flags => ⟨_, ?_, (stored _).set, ?_⟩⟩
  · rw [memSetMmuEntry, checked, Option.bind_some, stores]
  · rw [memGetMmuEntry, (stored value.toRaw).there, Option.bind_some, Bool.not_true, if_neg Bool.false_ne_true,
      (stored value.toRaw).loaded, Option.map_some, page_entry_round_trip]
  · rw [memSetPhysicalAddress, checked, Option.bind_some, loaded, Option.bind_some]
    dsimp only
    rw [flags_word, stores, old]
  · rw [memGetPhysicalAddress, (stored _).there, Option.bind_some, Bool.not_true, if_neg Bool.false_ne_true,
      (stored _).loaded, Option.map_some, joined_address _ _ (flags_small _)]
  · rw [memSetFlags, checked, Option.bind_some, loaded, Option.bind_some]
    dsimp only
    rw [stores, old]
  · have small : ((flags &&& 0xFFF).setWidth 64).toNat < 2 ^ 12 := by
      rw [BitVec.toNat_setWidth_of_le (by decide), BitVec.toNat_and]
      exact Nat.lt_of_le_of_lt Nat.and_le_right (by decide)
    rw [memGetFlags, (stored _).there, Option.bind_some, Bool.not_true, if_neg Bool.false_ne_true,
      (stored _).loaded, Option.map_some, joined_flags _ _ small]

-- Without a page table no store ends in an entry of the address.
theorem setters_need_table (wellFormed : WellFormed mem root) (apart : HugeApart mem root) (outside : OutsideSlot vaddr)
    (obey : SettersObey mem root vaddr) : ptblEntry mem root vaddr ≠ none := by
  intro absent
  obtain ⟨other, done, set, _⟩ := obey.mmuEntry (.ofRaw 0x1000)
  obtain ⟨_, _, stored⟩ := Option.bind_eq_some_iff.mp done
  have kept := (store_entry_kept mem other root vaddr _ wellFormed apart outside stored).1
  have value := set.here
  rw [entryOf, ptbl_entry_kept mem root other vaddr wellFormed.recursive kept, absent] at value
  have zero : (0 : BitVec 64) = (PageEntry.ofRaw 0x1000).toRaw := value
  exact absurd zero (by decide)

theorem setters_obey_iff (recursive : tableAt mem root 510 = some root) (outside : OutsideSlot vaddr) :
    (ptblEntry mem root vaddr ≠ none ∧ OwnEntry mem root vaddr → SettersObey mem root vaddr) ∧
      (WellFormed mem root → HugeApart mem root → (SettersObey mem root vaddr ↔ ptblEntry mem root vaddr ≠ none)) := by
  refine ⟨fun condition => setters_obey_own mem root vaddr recursive condition.1 condition.2, fun wellFormed apart => ?_⟩
  constructor
  · exact setters_need_table mem root vaddr wellFormed apart outside
  · exact fun there => setters_obey_own mem root vaddr recursive there (tree_own_entry mem root vaddr wellFormed.toTree outside)

end

theorem mapped_page_setters_obey : SettersObey holedTables 0x1000 0x200000 := by
  have outside : OutsideSlot 0x200000 := by decide
  exact (setters_obey_iff holedTables 0x1000 0x200000 (by decide) outside).1
    ⟨by decide, tree_own_entry holedTables 0x1000 0x200000 holed_tables_tree outside⟩

-- Below the hole there is no page table, and the setter faults.
theorem setter_faults :
    (∀ entry, memSetMmuEntry 0x1000 0x1FF000 entry holedTables = none) ∧ ¬ SettersObey holedTables 0x1000 0x1FF000 := by
  have faults : ∀ entry, memSetMmuEntry 0x1000 0x1FF000 entry holedTables = none := by
    intro entry
    have unmapped : walk holedTables 0x1000 (slot (memPtblAddr 0x1FF000) (memPtblIndex 0x1FF000)) = none := by decide
    rw [memSetMmuEntry, storeEntry, store, unmapped, Option.map_none]
    cases memCheckPagetable 0x1000 0x1FF000 holedTables <;> rfl
  refine ⟨faults, fun obey => ?_⟩
  obtain ⟨other, done, _⟩ := obey.mmuEntry (.ofRaw 0)
  rw [faults] at done
  cases done

end Kraftwerk.Paging
