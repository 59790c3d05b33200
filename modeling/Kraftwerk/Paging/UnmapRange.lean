import Kraftwerk.Paging.MapRange

set_option autoImplicit false

-- paging::unmap_range, and when it reaches every page of its range.
namespace Kraftwerk.Paging

-- Bit 7 of a PML4 entry is reserved and has to be clear.
structure WellFormed (mem : Memory) (root : Addr) : Prop extends Tree mem root where
  reserved : ∀ index, present (mem (entryAddr root index)) = true → huge (mem (entryAddr root index)) = false

-- No page of 1 GiB or 2 MiB lies over a table.
def HugeApart (mem : Memory) (root : Addr) : Prop :=
  ∀ vaddr level entry, OutsideSlot vaddr → 1 ≤ level → level ≤ 2 → levelEntry mem root vaddr level = some entry →
    present (mem entry) = true → huge (mem entry) = true → ∀ path table index, OwnPath path → tableOn mem root path = some table →
      (entryAddr table index).toNat / 2 ^ (39 - 9 * level) ≠ (frame (mem entry)).toNat / 2 ^ (39 - 9 * level)

-- The entry that ends the walk of an address above the page tables.
def MissingTable (mem : Memory) (root vaddr : Addr) : Prop :=
  ∃ level ≤ 2, ∃ entry, levelEntry mem root vaddr level = some entry ∧ present (mem entry) = false

theorem absent_of_no_page (mem : Memory) (table pageBits : Addr) (index : BitVec 9) (noTable : tableAt mem table index = none)
    (noPage : hugePageAt mem table index pageBits = none) : present (mem (entryAddr table index)) = false := by
  rw [tableAt] at noTable
  rw [hugePageAt] at noPage
  cases there : present (mem (entryAddr table index)) with
  | false => rfl
  | true => cases large : huge (mem (entryAddr table index)) <;> simp [there, large] at noTable noPage

theorem absent_of_no_table (mem : Memory) (root : Addr) (index : BitVec 9) (wellFormed : WellFormed mem root)
    (noTable : tableAt mem root index = none) : present (mem (entryAddr root index)) = false := by
  rw [tableAt] at noTable
  cases there : present (mem (entryAddr root index)) with
  | false => rfl
  | true => simp [there, wellFormed.reserved index there] at noTable

section
variable (mem other : Memory) (root vaddr : Addr)

theorem missing_table_of_unmapped (wellFormed : WellFormed mem root) (unmapped : walk mem root vaddr = none)
    (noTable : ptblOf mem root vaddr = none) : MissingTable mem root vaddr := by
  have entryOn := fun level table on => level_entry_on mem root vaddr level table on
  have unmappedHuge := unmapped
  rw [walk, noTable] at unmappedHuge
  dsimp only at unmappedHuge
  cases pdptOn : pdptOf mem root vaddr with
  | none => exact ⟨0, by decide, _, pml4_entry_level mem root vaddr, absent_of_no_table mem root _ wellFormed pdptOn⟩
  | some pdpt =>
      have pdptLevel := entryOn 1 pdpt ((pdpt_on_path mem root vaddr).symm.trans pdptOn)
      cases pdirOn : pdirOf mem root vaddr with
      | none =>
          rw [pdirOn, pdptOn, Option.bind_some, Option.map_eq_none_iff] at unmappedHuge
          rw [pdirOf, pdptOn, Option.bind_some] at pdirOn
          exact ⟨1, by decide, _, pdptLevel, absent_of_no_page mem pdpt _ _ pdirOn unmappedHuge⟩
      | some pdir =>
          have pdirLevel := entryOn 2 pdir ((pdir_on_path mem root vaddr).symm.trans pdirOn)
          rw [pdirOn, Option.map_eq_none_iff] at unmappedHuge
          rw [ptblOf, pdirOn, Option.bind_some] at noTable
          exact ⟨2, by decide, _, pdirLevel, absent_of_no_page mem pdir _ _ noTable unmappedHuge⟩

theorem check_missing (recursive : tableAt mem root 510 = some root) (missing : MissingTable mem root vaddr) :
    memCheckPagetable root vaddr mem = some false := by
  obtain ⟨level, low, entry, here, absent⟩ := missing
  exact check_absent mem root vaddr recursive level entry low here absent

theorem unmap_stuck (count : Nat) (checked : memCheckPagetable root vaddr mem = some false) :
    unmapPages root count vaddr mem = some mem := by
  induction count with
  | zero => rfl
  | succ count ih =>
      rw [unmapPages, checked, Option.bind_some]
      exact ih

theorem well_formed_kept (wellFormed : WellFormed mem root) (kept : TablesKept mem other root) : WellFormed other root where
  toTree := tree_kept mem other root wellFormed.toTree kept
  reserved := by
    intro index there
    have same := kept [] root index (Nat.zero_le 2) ⟨Nat.zero_le 3, fun first => by cases first⟩ rfl
    rw [same] at there ⊢
    exact wellFormed.reserved index there

end

-- Every page of the range that is mapped has a page table, and so has every page before it.
def UnmapCondition (mem : Memory) (root vaddr : Addr) (count : Nat) : Prop :=
  ∀ index < count, walk mem root (pageOf vaddr index) ≠ none →
    ∀ before ≤ index, ptblOf mem root (pageOf vaddr before) ≠ none

structure Unmapped (mem other : Memory) (root vaddr : Addr) (count : Nat) : Prop where
  range : ∀ index < count, walk other root (pageOf vaddr index) = none
  others : ∀ page, (∀ index < count, ¬ SamePage page (pageOf vaddr index)) → walk other root page = walk mem root page

theorem ptbl_of_kept (mem other : Memory) (root vaddr : Addr) (recursive : tableAt mem root 510 = some root)
    (kept : TablesKept mem other root) : ptblOf other root vaddr = ptblOf mem root vaddr := by
  rw [ptbl_on_path, ptbl_on_path, tables_kept_on mem other root recursive kept _ (path_to_length vaddr 3).le]

-- One round of the loop where the page has a page table.
structure PageUnmapped (mem other : Memory) (root vaddr : Addr) : Prop where
  kept : TablesKept mem other root
  gone : walk other root vaddr = none
  elsewhere : ∀ page, ¬ SamePage page vaddr → SameEntries mem other root page 4

theorem page_unmapped (mem : Memory) (root vaddr ptbl : Addr) (tree : Tree mem root) (outside : OutsideSlot vaddr)
    (ptblOn : ptblOf mem root vaddr = some ptbl) :
    ∃ other, storeEntry root vaddr mem 0 = some other ∧ PageUnmapped mem other root vaddr := by
  have recursive := tree.recursive
  have here := level_entry_on mem root vaddr 3 ptbl ((ptbl_on_path mem root vaddr).symm.trans ptblOn)
  have kept := page_write_kept mem root vaddr _ 0 tree outside here
  refine ⟨_, store_entry_here mem root vaddr recursive _ ((ptbl_entry_level mem root vaddr).trans here) 0, kept, ?_,
    page_write_elsewhere mem root vaddr _ 0 tree outside here⟩
  refine walk_absent _ root vaddr 3 (entryAddr ptbl (walkIndex vaddr 12)) (Nat.le_refl 3) ?_ ?_
  · rw [tables_kept_entry mem _ root vaddr recursive kept 3 (Nat.le_refl 3)]
    exact here
  · rw [Function.update_self]
    decide

section
variable (mem first : Memory) (root vaddr : Addr) (count : Nat)

theorem later_page_apart (index : Nat) (below : index < count) (fits : count + 1 ≤ 2 ^ 32) :
    ¬ SamePage (pageOf vaddr (index + 1)) vaddr := by
  intro same
  have different := pages_apart vaddr (index + 1) 0 (Nat.lt_of_lt_of_le (Nat.succ_lt_succ below) fits) (Nat.two_pow_pos 32)
  rw [page_of_zero] at different
  exact Nat.succ_ne_zero index (different same)

theorem unmap_condition_next (fits : count + 1 ≤ 2 ^ 32) (recursive : tableAt mem root 510 = some root)
    (unmapped : PageUnmapped mem first root vaddr) (condition : UnmapCondition mem root vaddr (count + 1)) :
    UnmapCondition first root (vaddr + 0x1000) count := by
  intro index below mapped before le
  rw [page_of_next, same_walk mem _ root _ (unmapped.elsewhere _ (later_page_apart vaddr count index below fits))] at mapped
  rw [page_of_next, ptbl_of_kept mem _ root _ recursive unmapped.kept]
  exact condition (index + 1) (Nat.succ_lt_succ below) mapped (before + 1) (Nat.succ_le_succ le)

theorem unmapped_cons (other : Memory) (fits : count + 1 ≤ 2 ^ 32) (unmapped : PageUnmapped mem first root vaddr)
    (later : Unmapped first other root (vaddr + 0x1000) count) : Unmapped mem other root vaddr (count + 1) where
  range := by
    intro index below
    cases index with
    | succ index =>
        rw [← page_of_next]
        exact later.range index (Nat.lt_of_succ_lt_succ below)
    | zero =>
        have others := later.others vaddr fun index below same => by
          rw [page_of_next] at same
          exact later_page_apart vaddr count index below fits same.symm
        rw [page_of_zero, others]
        exact unmapped.gone
  others := by
    intro page away
    have apart := away 0 (Nat.succ_pos count)
    rw [page_of_zero] at apart
    refine (later.others page (fun index below => ?_)).trans (same_walk mem first root page (unmapped.elsewhere page apart))
    rw [page_of_next]
    exact away (index + 1) (Nat.succ_lt_succ below)

end

theorem unmap_pages_unmap (root : Addr) (count : Nat) (vaddr : Addr) (mem : Memory) (wellFormed : WellFormed mem root)
    (fits : count ≤ 2 ^ 32) (outside : ∀ index < count, OutsideSlot (pageOf vaddr index))
    (condition : UnmapCondition mem root vaddr count) :
    ∃ other, unmapPages root count vaddr mem = some other ∧ Unmapped mem other root vaddr count := by
  induction count generalizing vaddr mem with
  | zero => exact ⟨mem, rfl, fun index below => absurd below (Nat.not_lt_zero index), fun _ _ => rfl⟩
  | succ count ih =>
      have recursive := wellFormed.recursive
      cases ptblOn : ptblOf mem root vaddr with
      | none =>
          have unmapped : ∀ index < count + 1, walk mem root (pageOf vaddr index) = none := by
            intro index below
            by_contra mapped
            exact condition index below mapped 0 (Nat.zero_le index) (by rwa [page_of_zero])
          have first := unmapped 0 (Nat.succ_pos count)
          rw [page_of_zero] at first
          have checked := check_missing mem root vaddr recursive (missing_table_of_unmapped mem root vaddr wellFormed first ptblOn)
          exact ⟨mem, unmap_stuck mem root vaddr (count + 1) checked, unmapped, fun _ _ => rfl⟩
      | some ptbl =>
          have vaddrOutside := outside 0 (Nat.succ_pos count)
          rw [page_of_zero] at vaddrOutside
          have laterOutside : ∀ index < count, OutsideSlot (pageOf (vaddr + 0x1000) index) := by
            intro index below
            rw [page_of_next]
            exact outside (index + 1) (Nat.succ_lt_succ below)
          obtain ⟨first, stored, unmapped⟩ := page_unmapped mem root vaddr ptbl wellFormed.toTree vaddrOutside ptblOn
          obtain ⟨other, done, later⟩ := ih (vaddr + 0x1000) first (well_formed_kept mem first root wellFormed unmapped.kept)
            (Nat.le_of_succ_le fits) laterOutside (unmap_condition_next mem first root vaddr count fits recursive unmapped condition)
          refine ⟨other, ?_, unmapped_cons mem first root vaddr count other fits unmapped later⟩
          rw [unmapPages, check_there mem root vaddr recursive ptbl ptblOn, Option.bind_some, Bool.not_true,
            if_neg Bool.false_ne_true, stored, Option.bind_some]
          exact done

theorem large_mask_to_nat (address : Addr) : (address &&& ~~~0x1FFFFF).toNat = address.toNat / 2 ^ 21 * 2 ^ 21 := by
  have mask : ∀ index, (0x1FFFFF : BitVec 64).getLsbD index = decide (index < 21) := by
    intro index
    rw [BitVec.getLsbD, show (0x1FFFFF : BitVec 64).toNat = 2 ^ 21 - 1 from rfl, Nat.testBit_two_pow_sub_one]
  rw [← Nat.shiftRight_eq_div_pow, ← Nat.shiftLeft_eq]
  apply Nat.eq_of_testBit_eq
  intro index
  rw [BitVec.testBit_toNat, BitVec.getLsbD_and, BitVec.getLsbD_not, mask, Nat.testBit_shiftLeft, Nat.testBit_shiftRight]
  by_cases low : index < 21
  · simp [low, Nat.not_le.mpr low]
  · have high : 21 ≤ index := Nat.le_of_not_lt low
    have same : 21 + (index - 21) = index := by omega
    rw [same, decide_eq_true high, decide_eq_false low, Bool.true_and, BitVec.testBit_toNat]
    by_cases inside : index < 64
    · rw [decide_eq_true inside, Bool.not_false, Bool.and_true, Bool.and_true]
    · rw [BitVec.getLsbD_of_ge address index (Nat.le_of_not_lt inside), Bool.false_and]

theorem frame_small (entry : BitVec 64) : (frame entry).toNat < 2 ^ 52 := by
  rw [frame, BitVec.toNat_and]
  exact Nat.lt_of_le_of_lt Nat.and_le_right (by decide)

-- An address inside a page of 2 MiB, and one inside the part of 2 MiB of a page of 1 GiB.
theorem large_page_address (entry : BitVec 64) (vaddr : Addr) :
    (frame entry + (vaddr &&& 0xFFF)).toNat / 2 ^ 21 = (frame entry).toNat / 2 ^ 21 ∧
      ((frame entry &&& ~~~0x1FFFFF) + (vaddr &&& 0x1FFFFF)).toNat / 2 ^ 30 = (frame entry).toNat / 2 ^ 30 := by
  have small := frame_small entry
  have aligned := frame_aligned entry
  have offset : (vaddr &&& 0xFFF).toNat < 4096 := flags_small vaddr
  have largeOffset : (vaddr &&& 0x1FFFFF).toNat < 2 ^ 21 := by
    rw [BitVec.toNat_and]
    exact Nat.lt_of_le_of_lt Nat.and_le_right (by decide)
  rw [Aligned] at aligned
  constructor
  · rw [BitVec.toNat_add, Nat.mod_eq_of_lt (by omega)]
    omega
  · rw [BitVec.toNat_add, large_mask_to_nat, Nat.mod_eq_of_lt (by omega)]
    omega

-- Behind the window of a page table each table stands in for the one above it.
theorem window_tables (mem : Memory) (root vaddr : Addr) (recursive : tableAt mem root 510 = some root) :
    pdptOf mem root (slot (memPtblAddr vaddr) (memPtblIndex vaddr)) = some root ∧
      pdirOf mem root (slot (memPtblAddr vaddr) (memPtblIndex vaddr)) = pdptOf mem root vaddr ∧
      ptblOf mem root (slot (memPtblAddr vaddr) (memPtblIndex vaddr)) = pdirOf mem root vaddr := by
  obtain ⟨pml4Index, pdptIndex, pdirIndex, _⟩ := has_indices_walk _ _ _ _ _ _ (ptbl_slot_indices vaddr)
  have first : pdptOf mem root (slot (memPtblAddr vaddr) (memPtblIndex vaddr)) = some root := by
    rw [pdptOf, pml4Index, recursive]
  have second : pdirOf mem root (slot (memPtblAddr vaddr) (memPtblIndex vaddr)) = pdptOf mem root vaddr := by
    rw [pdirOf, first, Option.bind_some, pdptIndex, pdptOf]
  refine ⟨first, second, ?_⟩
  rw [ptblOf, second, pdirIndex, pdirOf]

-- Without a page table the window gives a word in a page of 2 MiB or 1 GiB.
theorem window_of_large_page (mem : Memory) (root vaddr address : Addr) (wellFormed : WellFormed mem root)
    (noTable : ptblOf mem root vaddr = none)
    (walked : walk mem root (slot (memPtblAddr vaddr) (memPtblIndex vaddr)) = some address) :
    ∃ level entry, 1 ≤ level ∧ level ≤ 2 ∧ levelEntry mem root vaddr level = some entry ∧ present (mem entry) = true ∧
      huge (mem entry) = true ∧ address.toNat / 2 ^ (39 - 9 * level) = (frame (mem entry)).toNat / 2 ^ (39 - 9 * level) := by
  obtain ⟨_, pdptIndex, pdirIndex, ptblIndex, _⟩ := has_indices_walk _ _ _ _ _ _ (ptbl_slot_indices vaddr)
  obtain ⟨first, second, third⟩ := window_tables mem root vaddr wellFormed.recursive
  rw [walk, third, second, first] at walked
  cases pdirOn : pdirOf mem root vaddr with
  | some pdir =>
      have here := level_entry_on mem root vaddr 2 pdir ((pdir_on_path mem root vaddr).symm.trans pdirOn)
      rw [pdirOn] at walked
      obtain ⟨page, pageOn, rfl⟩ := Option.map_eq_some_iff.mp walked
      rw [ptblOf, pdirOn, Option.bind_some, tableAt] at noTable
      rw [ptblIndex, pageAt] at pageOn
      obtain ⟨there, pageEq⟩ := Option.ite_none_right_eq_some.mp pageOn
      obtain rfl := Option.some.inj pageEq
      have large : huge (mem (entryAddr pdir (walkIndex vaddr 21))) = true := by
        by_contra small
        simp [there, small] at noTable
      exact ⟨2, _, by decide, Nat.le_refl 2, here, there, large, (large_page_address _ _).1⟩
  | none =>
      rw [pdirOn] at walked
      cases pdptOn : pdptOf mem root vaddr with
      | some pdpt =>
          have here := level_entry_on mem root vaddr 1 pdpt ((pdpt_on_path mem root vaddr).symm.trans pdptOn)
          rw [pdptOn] at walked
          obtain ⟨page, pageOn, rfl⟩ := Option.map_eq_some_iff.mp walked
          rw [pdirIndex, hugePageAt] at pageOn
          obtain ⟨usable, pageEq⟩ := Option.ite_none_right_eq_some.mp pageOn
          obtain ⟨there, large⟩ := Bool.and_eq_true_iff.mp usable
          obtain rfl := Option.some.inj pageEq
          exact ⟨1, _, Nat.le_refl 1, by decide, here, there, large, (large_page_address _ _).2⟩
      | none =>
          rw [pdptOn, Option.bind_some, pdptIndex, hugePageAt,
            absent_of_no_table mem root (walkIndex vaddr 39) wellFormed pdptOn] at walked
          cases walked

-- Where an entry is set: in the page table of the address, or on a larger page of it.
theorem store_entry_target (mem other : Memory) (root vaddr : Addr) (value : BitVec 64) (wellFormed : WellFormed mem root)
    (apart : HugeApart mem root) (outside : OutsideSlot vaddr) (done : storeEntry root vaddr mem value = some other) :
    ∃ address, other = Function.update mem address value ∧ (levelEntry mem root vaddr 3 = some address ∨
      ∀ path table index, OwnPath path → tableOn mem root path = some table → entryAddr table index ≠ address) := by
  obtain ⟨address, walked, rfl⟩ := Option.map_eq_some_iff.mp done
  refine ⟨address, rfl, ?_⟩
  cases ptblOn : ptblOf mem root vaddr with
  | some ptbl =>
      have here := level_entry_on mem root vaddr 3 ptbl ((ptbl_on_path mem root vaddr).symm.trans ptblOn)
      have found := walk_window mem root vaddr wellFormed.recursive 3 _ (Nat.le_refl 3) here
      exact .inl (here.trans (congrArg some (Option.some.inj (found.symm.trans walked))))
  | none =>
      obtain ⟨level, entry, first, low, here, there, large, inside⟩ :=
        window_of_large_page mem root vaddr address wellFormed ptblOn walked
      refine .inr fun path table index own on same => ?_
      exact apart vaddr level entry outside first low here there large path table index own on (same ▸ inside)

section
variable (mem other : Memory) (root vaddr : Addr)

theorem store_entry_kept (value : BitVec 64) (wellFormed : WellFormed mem root) (apart : HugeApart mem root)
    (outside : OutsideSlot vaddr) (done : storeEntry root vaddr mem value = some other) :
    TablesKept mem other root ∧ ∀ page, ¬ SamePage page vaddr → SameEntries mem other root page 4 := by
  obtain ⟨address, rfl, here | elsewhere⟩ := store_entry_target mem other root vaddr value wellFormed apart outside done
  · exact ⟨page_write_kept mem root vaddr address value wellFormed.toTree outside here,
      page_write_elsewhere mem root vaddr address value wellFormed.toTree outside here⟩
  · constructor
    · intro path table index _ own on
      exact write_elsewhere mem address _ value (elsewhere path table index own on)
    · intro page _ level low entry here
      obtain ⟨table, on, rfl⟩ := Option.map_eq_some_iff.mp here
      rw [← table_on_strip mem root wellFormed.recursive] at on
      have own := strip_own (pathTo page level) ((path_to_length page level).trans_le (Nat.le_of_lt_succ low))
      exact write_elsewhere mem address _ value (elsewhere _ table _ own on)

theorem huge_apart_kept (recursive : tableAt mem root 510 = some root) (apart : HugeApart mem root)
    (kept : TablesKept mem other root) : HugeApart other root := by
  intro vaddr level entry outside first low here there large path table index own on
  rw [tables_kept_entry mem other root vaddr recursive kept level (low.trans (by decide))] at here
  rw [tables_kept_on mem other root recursive kept path own.1] at on
  have same := tables_kept_upper mem other root vaddr entry level recursive kept (Nat.lt_succ_of_le low) here
  rw [same] at there large ⊢
  exact apart vaddr level entry outside first low here there large path table index own on

theorem missing_table_kept (recursive : tableAt mem root 510 = some root) (kept : TablesKept mem other root)
    (missing : MissingTable mem root vaddr) : MissingTable other root vaddr := by
  obtain ⟨level, low, entry, here, absent⟩ := missing
  refine ⟨level, low, entry, ?_, ?_⟩
  · rw [tables_kept_entry mem other root vaddr recursive kept level (low.trans (by decide)), here]
  · rw [tables_kept_upper mem other root vaddr entry level recursive kept (Nat.lt_succ_of_le low) here, absent]

theorem same_entries_trans (last : Memory) (first : SameEntries mem other root vaddr 4)
    (second : SameEntries other last root vaddr 4) : SameEntries mem last root vaddr 4 := by
  intro level low entry here
  have still := (same_level_entry mem other root vaddr 4 level first (Nat.le_of_lt low)).trans here
  exact (second level low entry still).trans (first level low entry here)

end

-- One round of the loop that finds the tables, and the rest of the run behind it.
theorem unmap_pages_cons (root vaddr : Addr) (count : Nat) (mem other : Memory)
    (done : unmapPages root (count + 1) vaddr mem = some other) :
    (memCheckPagetable root vaddr mem = some false ∧ other = mem) ∨
      ∃ middle, storeEntry root vaddr mem 0 = some middle ∧ unmapPages root count (vaddr + 0x1000) middle = some other := by
  have whole := done
  rw [unmapPages] at done
  obtain ⟨there, checked, later⟩ := Option.bind_eq_some_iff.mp done
  cases there with
  | false =>
      rw [unmap_stuck mem root vaddr (count + 1) checked] at whole
      exact .inl ⟨checked, (Option.some.inj whole).symm⟩
  | true =>
      rw [Bool.not_true, if_neg Bool.false_ne_true] at later
      exact .inr (Option.bind_eq_some_iff.mp later)

theorem unmap_pages_kept (root : Addr) (count : Nat) (vaddr : Addr) (mem other : Memory) (wellFormed : WellFormed mem root)
    (apart : HugeApart mem root) (outside : ∀ index < count, OutsideSlot (pageOf vaddr index))
    (done : unmapPages root count vaddr mem = some other) : TablesKept mem other root := by
  induction count generalizing vaddr mem with
  | zero =>
      obtain rfl := Option.some.inj done
      exact fun _ _ _ _ _ _ => rfl
  | succ count ih =>
      obtain ⟨_, rfl⟩ | ⟨middle, stored, later⟩ := unmap_pages_cons root vaddr count mem other done
      · exact fun _ _ _ _ _ _ => rfl
      · have vaddrOutside := outside 0 (Nat.succ_pos count)
        rw [page_of_zero] at vaddrOutside
        have kept := (store_entry_kept mem middle root vaddr 0 wellFormed apart vaddrOutside stored).1
        refine tables_kept_trans mem root middle other wellFormed.recursive kept (ih (vaddr + 0x1000) middle
          (well_formed_kept mem middle root wellFormed kept)
          (huge_apart_kept mem middle root wellFormed.recursive apart kept) (fun index below => ?_) later)
        rw [page_of_next]
        exact outside (index + 1) (Nat.succ_lt_succ below)

-- The loop does not get past a page whose tables are missing.
theorem unmap_pages_behind (root : Addr) (count : Nat) (vaddr : Addr) (mem other : Memory) (wellFormed : WellFormed mem root)
    (apart : HugeApart mem root) (outside : ∀ index < count, OutsideSlot (pageOf vaddr index)) (stuck : Nat)
    (inside : stuck < count) (missing : MissingTable mem root (pageOf vaddr stuck))
    (done : unmapPages root count vaddr mem = some other) (page : Addr)
    (behind : ∀ before < stuck, ¬ SamePage page (pageOf vaddr before)) : SameEntries mem other root page 4 := by
  induction count generalizing vaddr mem stuck with
  | zero => exact absurd inside (Nat.not_lt_zero stuck)
  | succ count ih =>
      obtain ⟨_, rfl⟩ | ⟨middle, stored, later⟩ := unmap_pages_cons root vaddr count mem other done
      · exact fun _ _ _ _ => rfl
      · have vaddrOutside := outside 0 (Nat.succ_pos count)
        rw [page_of_zero] at vaddrOutside
        obtain ⟨kept, elsewhere⟩ := store_entry_kept mem middle root vaddr 0 wellFormed apart vaddrOutside stored
        cases stuck with
        | zero =>
            rw [page_of_zero] at missing
            rw [unmap_stuck mem root vaddr _ (check_missing mem root vaddr wellFormed.recursive missing)] at done
            obtain rfl := Option.some.inj done
            exact fun _ _ _ _ => rfl
        | succ stuck =>
            have first := behind 0 (Nat.succ_pos stuck)
            rw [page_of_zero] at first
            refine same_entries_trans mem middle root page other (elsewhere page first) (ih (vaddr + 0x1000) middle
              (well_formed_kept mem middle root wellFormed kept)
              (huge_apart_kept mem middle root wellFormed.recursive apart kept) (fun index below => ?_) stuck
              (Nat.lt_of_succ_lt_succ inside) ?_ later (fun before less => ?_))
            · rw [page_of_next]
              exact outside (index + 1) (Nat.succ_lt_succ below)
            · rw [page_of_next]
              exact missing_table_kept mem middle root _ wellFormed.recursive kept missing
            · rw [page_of_next]
              exact behind (before + 1) (Nat.succ_lt_succ less)

-- A page that is mapped without a page table stays mapped as long as the tables above stay.
theorem huge_page_kept (mem other : Memory) (root vaddr : Addr) (recursive : tableAt mem root 510 = some root)
    (noTable : ptblOf mem root vaddr = none) (kept : TablesKept mem other root) :
    walk other root vaddr = walk mem root vaddr := by
  refine same_walk mem other root vaddr fun level low entry here => ?_
  by_cases upper : level < 3
  · exact tables_kept_upper mem other root vaddr entry level recursive kept upper here
  · obtain rfl : level = 3 := by omega
    rw [levelEntry, ← ptbl_on_path, noTable] at here
    cases here

def UnmapsRange (root vaddr : Addr) (nPages : BitVec 32) (mem : Memory) : Prop :=
  ∃ other, unmapRange root vaddr nPages mem = some other ∧ Unmapped mem other root vaddr nPages.toNat

theorem unmaps_range_iff (root vaddr : Addr) (nPages : BitVec 32) (mem : Memory) (wellFormed : WellFormed mem root)
    (outside : ∀ index < nPages.toNat, OutsideSlot (pageOf vaddr index)) :
    (UnmapCondition mem root vaddr nPages.toNat → UnmapsRange root vaddr nPages mem) ∧
      (HugeApart mem root → UnmapsRange root vaddr nPages mem → UnmapCondition mem root vaddr nPages.toNat) := by
  have fits : nPages.toNat ≤ 2 ^ 32 := Nat.le_of_lt nPages.isLt
  refine ⟨unmap_pages_unmap root nPages.toNat vaddr mem wellFormed fits outside, ?_⟩
  rintro apart ⟨other, done, unmapped⟩
  have kept := unmap_pages_kept root nPages.toNat vaddr mem other wellFormed apart outside done
  have small : ∀ index < nPages.toNat, ptblOf mem root (pageOf vaddr index) = none → walk mem root (pageOf vaddr index) = none :=
    fun index below noTable =>
      (huge_page_kept mem other root _ wellFormed.recursive noTable kept).symm.trans (unmapped.range index below)
  intro index below mapped before le noTable
  have beforeBelow := Nat.lt_of_le_of_lt le below
  have missing := missing_table_of_unmapped mem root _ wellFormed (small before beforeBelow noTable) noTable
  have same := unmap_pages_behind root nPages.toNat vaddr mem other wellFormed apart outside before beforeBelow missing done
    (pageOf vaddr index) (fun earlier less samePage => ?_)
  · exact mapped ((same_walk mem other root _ same).symm.trans (unmapped.range index below))
  · have equal := pages_apart vaddr index earlier (Nat.lt_of_lt_of_le below fits)
      (Nat.lt_of_lt_of_le (Nat.lt_trans less beforeBelow) fits) samePage
    omega

theorem holed_tables_well_formed : WellFormed holedTables 0x1000 where
  toTree := holed_tables_tree
  reserved := by decide +kernel

theorem four_pages_unmapped : UnmapsRange 0x1000 0x200123 4 holedTables := by
  refine (unmaps_range_iff 0x1000 0x200123 4 holedTables holed_tables_well_formed (by decide)).1 ?_
  unfold UnmapCondition
  decide

-- From a hole the loop does not get to the mapped page behind it.
theorem page_behind_hole_stays :
    unmapRange 0x1000 0x1FF000 2 holedTables = some holedTables ∧
      walk holedTables 0x1000 (pageOf 0x1FF000 1) = some 0x300000 ∧ ¬ UnmapsRange 0x1000 0x1FF000 2 holedTables := by
  have stuck : unmapRange 0x1000 0x1FF000 2 holedTables = some holedTables :=
    unmap_stuck holedTables 0x1000 0x1FF000 2 (by decide)
  have mapped : walk holedTables 0x1000 (pageOf 0x1FF000 1) = some 0x300000 := by decide
  refine ⟨stuck, mapped, ?_⟩
  rintro ⟨other, done, unmapped⟩
  obtain rfl := Option.some.inj (stuck.symm.trans done)
  have none := unmapped.range 1 (by decide)
  rw [mapped] at none
  cases none

end Kraftwerk.Paging
