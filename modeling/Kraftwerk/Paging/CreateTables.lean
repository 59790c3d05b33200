import Kraftwerk.Paging.UnmapRange

set_option autoImplicit false

-- mem_create_pagetable, whose new tables keep whatever their frames hold.
namespace Kraftwerk.Paging

-- No word of the frame reads as a present entry.
def Clear (mem : Memory) (table : Addr) : Prop := ∀ index, present (mem (entryAddr table index)) = false

structure FreshFrame (mem : Memory) (root page : Addr) : Prop where
  whole : frame page = page
  unused : ∀ vaddr level, OutsideSlot vaddr → level ≤ 3 → tableOn mem root (pathTo vaddr level) ≠ some page

structure FreshFrames (mem : Memory) (root : Addr) (frames : List Addr) : Prop where
  fresh : ∀ page ∈ frames, FreshFrame mem root page
  distinct : frames.Nodup

-- The entry of an address at a level is an entry of the addresses only that share the indices so far.
def OwnAt (mem : Memory) (root vaddr : Addr) (level : Nat) : Prop :=
  ∀ entry, levelEntry mem root vaddr level = some entry → ∀ page other, OutsideSlot page → other ≤ 3 →
    levelEntry mem root page other = some entry → other = level ∧ pathTo page (level + 1) = pathTo vaddr (level + 1)

theorem tree_own_at (mem : Memory) (root vaddr : Addr) (level : Nat) (tree : Tree mem root) (outside : OutsideSlot vaddr)
    (low : level ≤ 3) : OwnAt mem root vaddr level := by
  intro entry here page other pageOutside otherLow there
  exact outside_entry_shared mem root vaddr page entry tree level other outside pageOutside low otherLow here there

theorem fresh_entry_apart (mem : Memory) (root page vaddr entry : Addr) (level : Nat) (index : BitVec 9)
    (recursive : tableAt mem root 510 = some root) (fresh : FreshFrame mem root page) (outside : OutsideSlot vaddr)
    (low : level ≤ 3) (here : levelEntry mem root vaddr level = some entry) : entryAddr page index ≠ entry := by
  obtain ⟨table, on, rfl⟩ := Option.map_eq_some_iff.mp here
  intro same
  have tableAligned := table_on_aligned mem root table _ (root_aligned mem root recursive) on
  obtain ⟨rfl, _⟩ := entry_addr_inj page table _ _ (fresh.whole ▸ frame_aligned page) tableAligned same
  exact fresh.unused vaddr level outside low on

-- A clear frame linked where an entry was missing.
structure Missing (mem : Memory) (root vaddr entry page : Addr) (level : Nat) : Prop where
  recursive : tableAt mem root 510 = some root
  outside : OutsideSlot vaddr
  low : level ≤ 2
  here : levelEntry mem root vaddr level = some entry
  absent : present (mem entry) = false
  own : OwnAt mem root vaddr level
  fresh : FreshFrame mem root page

section
variable (mem : Memory) (root vaddr entry page : Addr) (level : Nat)

theorem linked_recursive (missing : Missing mem root vaddr entry page level) :
    tableAt (Function.update mem entry (page ||| 0x101)) root 510 = some root := by
  have recursive := missing.recursive
  rw [tableAt] at recursive
  split at recursive
  · rename_i usable
    have apart : entryAddr root 510 ≠ entry := by
      intro same
      rw [same, missing.absent] at usable
      cases usable
    rw [tableAt, write_elsewhere mem entry _ _ apart, if_pos usable, recursive]
  · cases recursive

theorem linked_above (missing : Missing mem root vaddr entry page level) :
    SameEntries mem (Function.update mem entry (page ||| 0x101)) root vaddr level := by
  intro upper below shared there
  refine write_elsewhere mem entry shared _ fun same => ?_
  have low := missing.low
  have equal := (missing.own entry missing.here vaddr upper missing.outside (by omega) (same ▸ there)).1
  omega

theorem linked_table (missing : Missing mem root vaddr entry page level) :
    tableOn (Function.update mem entry (page ||| 0x101)) root (pathTo vaddr (level + 1)) = some page := by
  obtain ⟨there, small, target⟩ := linked_entry page missing.fresh.whole
  have above := same_tables mem _ root vaddr level level (linked_above mem root vaddr entry page level missing) (Nat.le_refl level)
  obtain ⟨table, on, same⟩ := Option.map_eq_some_iff.mp missing.here
  rw [table_on_next, above, on, Option.bind_some, tableAt, same, Function.update_self, there, small, target]
  rfl

theorem linked_elsewhere (missing : Missing mem root vaddr entry page level) (other : Addr) (outside : OutsideSlot other)
    (apart : pathTo other (level + 1) ≠ pathTo vaddr (level + 1)) :
    SameEntries mem (Function.update mem entry (page ||| 0x101)) root other 4 := by
  intro otherLevel below shared there
  refine write_elsewhere mem entry shared _ fun same => apart ?_
  exact (missing.own entry missing.here other otherLevel outside (Nat.le_of_lt_succ below) (same ▸ there)).2

theorem linked_clear (missing : Missing mem root vaddr entry page level) (other : Addr) (fresh : FreshFrame mem root other)
    (clear : Clear mem other) : Clear (Function.update mem entry (page ||| 0x101)) other := by
  intro index
  have low := missing.low
  rw [write_elsewhere mem entry _ _ (fresh_entry_apart mem root other vaddr entry level index missing.recursive fresh
    missing.outside (by omega) missing.here)]
  exact clear index

-- The tables that an address outside the slot has afterwards.
theorem linked_tables (missing : Missing mem root vaddr entry page level) (clear : Clear mem page) (other table : Addr)
    (otherLevel : Nat) (outside : OutsideSlot other)
    (on : tableOn (Function.update mem entry (page ||| 0x101)) root (pathTo other otherLevel) = some table) (low : otherLevel ≤ 3) :
    tableOn mem root (pathTo other otherLevel) = some table ∨
      (table = page ∧ otherLevel = level + 1 ∧ pathTo other (level + 1) = pathTo vaddr (level + 1)) := by
  by_cases apart : pathTo other (level + 1) = pathTo vaddr (level + 1)
  · have shared := path_to_above other vaddr level 1 apart
    have linked := linked_table mem root vaddr entry page level missing
    rw [← apart] at linked
    rcases Nat.lt_trichotomy otherLevel (level + 1) with above | rfl | below
    · -- Above the new table the two addresses have the same tables, and these stay.
      obtain ⟨more, rfl⟩ := Nat.exists_eq_add_of_le (Nat.le_of_lt_succ above)
      have path := path_to_above other vaddr otherLevel more shared
      rw [path, same_tables mem _ root vaddr (otherLevel + more) otherLevel
        (linked_above mem root vaddr entry page _ missing) (Nat.le_add_right _ _)] at on
      exact .inl (path ▸ on)
    · exact .inr ⟨Option.some.inj (on.symm.trans linked), rfl, apart⟩
    · obtain ⟨more, rfl⟩ := Nat.exists_eq_add_of_le below
      have noEntry := linked_clear mem root vaddr entry page level missing page missing.fresh clear
      rw [absent_below _ root other (level + 1) more _ (level_entry_on _ root other (level + 1) page linked) (noEntry _)] at on
      cases on
  · left
    rw [same_tables mem _ root other 4 otherLevel (linked_elsewhere mem root vaddr entry page level missing other outside apart)
      (low.trans (by decide))] at on
    exact on

theorem linked_walk (missing : Missing mem root vaddr entry page level) (clear : Clear mem page) (other : Addr)
    (outside : OutsideSlot other) :
    walk (Function.update mem entry (page ||| 0x101)) root other = walk mem root other := by
  by_cases apart : pathTo other (level + 1) = pathTo vaddr (level + 1)
  · have low := missing.low
    have linked := linked_table mem root vaddr entry page level missing
    rw [← apart] at linked
    have noEntry := linked_clear mem root vaddr entry page level missing page missing.fresh clear
    have shared : levelEntry mem root other level = some entry := by
      obtain ⟨path, index⟩ := (path_to_extend other vaddr level).mp apart
      rw [levelEntry, path, index]
      exact missing.here
    rw [walk_absent _ root other (level + 1) _ (by omega) (level_entry_on _ root other (level + 1) page linked) (noEntry _),
      walk_absent mem root other level entry (by omega) shared missing.absent]
  · exact same_walk mem _ root other (linked_elsewhere mem root vaddr entry page level missing other outside apart)

theorem linked_fresh (missing : Missing mem root vaddr entry page level) (clear : Clear mem page) (other : Addr)
    (fresh : FreshFrame mem root other) (different : other ≠ page) :
    FreshFrame (Function.update mem entry (page ||| 0x101)) root other where
  whole := fresh.whole
  unused := by
    intro user userLevel outside low on
    rcases linked_tables mem root vaddr entry page level missing clear user other userLevel outside on low with before | ⟨same, _⟩
    · exact fresh.unused user userLevel outside low before
    · exact different same

theorem linked_own (missing : Missing mem root vaddr entry page level) (clear : Clear mem page) :
    OwnAt (Function.update mem entry (page ||| 0x101)) root vaddr (level + 1) := by
  intro next here other otherLevel outside low there
  have linked := linked_table mem root vaddr entry page level missing
  rw [levelEntry, linked, Option.map_some, Option.some.injEq] at here
  obtain ⟨table, on, same⟩ := Option.map_eq_some_iff.mp there
  have aligned := root_aligned _ root (linked_recursive mem root vaddr entry page level missing)
  obtain ⟨rfl, index⟩ := entry_addr_inj table page _ _ (table_on_aligned _ root table _ aligned on)
    (table_on_aligned _ root page _ aligned linked) (same.trans here.symm)
  rcases linked_tables mem root vaddr entry table level missing clear other table otherLevel outside on low with
    before | ⟨_, rfl, path⟩
  · exact absurd before (missing.fresh.unused other otherLevel outside low)
  · exact ⟨rfl, (path_to_extend other vaddr (level + 1)).mpr ⟨path, index⟩⟩

end

section
variable (root vaddr : Addr) (machine : Machine)

theorem create_windows : memCreatePagetable root vaddr machine =
    (createEntry root (window vaddr 0) machine).bind fun machine =>
      (createEntry root (window vaddr 1) machine).bind fun machine => createEntry root (window vaddr 2) machine := rfl

theorem create_entry_there (recursive : tableAt machine.mem root 510 = some root) (level : Nat) (entry : Addr) (low : level ≤ 2)
    (here : levelEntry machine.mem root vaddr level = some entry) (there : present (machine.mem entry) = true) :
    createEntry root (window vaddr level) machine = some machine := by
  rw [createEntry, load_window machine.mem root vaddr recursive level entry (low.trans (by decide)) here, Option.bind_some, there]
  rfl

theorem create_entry_missing (recursive : tableAt machine.mem root 510 = some root) (level : Nat) (entry page : Addr)
    (rest : List Addr) (low : level ≤ 2) (here : levelEntry machine.mem root vaddr level = some entry)
    (absent : present (machine.mem entry) = false) (frames : machine.frames = page :: rest) :
    createEntry root (window vaddr level) machine = some ⟨Function.update machine.mem entry (page ||| 0x101), rest⟩ := by
  have inside : level ≤ 3 := low.trans (by decide)
  rw [createEntry, load_window machine.mem root vaddr recursive level entry inside here, Option.bind_some, absent, Bool.not_false,
    if_pos rfl, allocate, frames]
  dsimp only
  rw [Option.bind_some, store_window machine.mem root vaddr recursive level entry inside here, Option.map_some]

end

-- The level from which on the tables of an address are missing, and frames to make them from.
structure Ready (machine : Machine) (root vaddr : Addr) (level : Nat) : Prop where
  recursive : tableAt machine.mem root 510 = some root
  outside : OutsideSlot vaddr
  low : level ≤ 2
  missing : ∃ entry, levelEntry machine.mem root vaddr level = some entry ∧ present (machine.mem entry) = false
  own : OwnAt machine.mem root vaddr level
  fresh : FreshFrames machine.mem root machine.frames
  enough : 3 - level ≤ machine.frames.length
  clear : ∀ page ∈ machine.frames.take (3 - level), Clear machine.mem page

-- What making tables has done: nothing that any address outside the slot could see. In the slot the windows onto the new
-- tables are mapped.
structure Made (machine after : Machine) (root vaddr : Addr) (level : Nat) : Prop where
  recursive : tableAt after.mem root 510 = some root
  table : ∃ table, tableOn after.mem root (pathTo vaddr level) = some table
  walks : ∀ page, OutsideSlot page → walk after.mem root page = walk machine.mem root page
  mapped : ∀ page address, walk machine.mem root page = some address → walk after.mem root page = some address
  tree : Tree machine.mem root → Tree after.mem root
  fresh : FreshFrames after.mem root after.frames
  frames : after.frames <:+ machine.frames
  clear : ∀ page ∈ after.frames, Clear machine.mem page → Clear after.mem page

theorem page_with_indices (pml4 pdpt pdir ptbl : BitVec 9) : ∃ page, pathTo page 4 = [pml4, pdpt, pdir, ptbl] := by
  have first := pml4.isLt
  have second := pdpt.isLt
  have third := pdir.isLt
  have fourth := ptbl.isLt
  obtain ⟨number, numberEq⟩ : ∃ number, number = 0xFFFF000000000000 + pml4.toNat * 2 ^ 39 + pdpt.toNat * 2 ^ 30 +
      pdir.toNat * 2 ^ 21 + ptbl.toNat * 2 ^ 12 + 0 := ⟨_, rfl⟩
  have split : (BitVec.ofNat 64 number).toNat = number := by
    rw [BitVec.toNat_ofNat]
    exact Nat.mod_eq_of_lt (by omega)
  obtain ⟨pml4Eq, pdptEq, pdirEq, ptblEq, _⟩ :=
    has_indices_walk (BitVec.ofNat 64 number) pml4 pdpt pdir ptbl 0 ⟨by decide, split.trans numberEq⟩
  exact ⟨BitVec.ofNat 64 number, by simp [pathTo, pml4Eq, pdptEq, pdirEq, ptblEq]⟩

theorem own_path_page (path : List (BitVec 9)) (own : OwnPath path) :
    ∃ page, OutsideSlot page ∧ pathTo page path.length = path := by
  obtain ⟨short, head⟩ := own
  obtain ⟨page, pageEq⟩ : ∃ page, pathTo page 4 = path ++ List.replicate (4 - path.length) 0 := by
    rcases level_cases path.length short with none | one | two | three
    · obtain rfl := List.length_eq_zero_iff.mp none
      exact page_with_indices 0 0 0 0
    · obtain ⟨pml4, rfl⟩ := List.length_eq_one_iff.mp one
      exact page_with_indices pml4 0 0 0
    · obtain ⟨pml4, pdpt, rfl⟩ := List.length_eq_two.mp two
      exact page_with_indices pml4 pdpt 0 0
    · obtain ⟨pml4, pdpt, pdir, rfl⟩ := List.length_eq_three.mp three
      exact page_with_indices pml4 pdpt pdir 0
  refine ⟨page, fun same => ?_, ?_⟩
  · have first := path_to_head page 3
    rw [pageEq, same] at first
    cases path with
    | nil => exact absurd (Option.some.inj first) (by decide)
    | cons index rest => exact head first
  · have start := path_to_prefix page path.length (4 - path.length)
    rw [show path.length + (4 - path.length) = 4 by omega, pageEq] at start
    exact List.IsPrefix.eq_of_length (List.prefix_of_prefix_length_le start (List.prefix_append _ _) (by simp)) (by simp)

theorem linked_tree (mem : Memory) (root vaddr entry page : Addr) (level : Nat) (missing : Missing mem root vaddr entry page level)
    (clear : Clear mem page) (tree : Tree mem root) : Tree (Function.update mem entry (page ||| 0x101)) root where
  recursive := linked_recursive mem root vaddr entry page level missing
  distinct := by
    intro path another table own anotherOwn on anotherOn
    obtain ⟨first, outside, firstPath⟩ := own_path_page path own
    obtain ⟨second, secondOutside, secondPath⟩ := own_path_page another anotherOwn
    rw [← firstPath] at on
    rw [← secondPath] at anotherOn
    have tables := linked_tables mem root vaddr entry page level missing clear
    rcases tables first table path.length outside on own.1 with here | ⟨rfl, length, shared⟩
    · rcases tables second table another.length secondOutside anotherOn anotherOwn.1 with there | ⟨rfl, _⟩
      · rw [firstPath] at here
        rw [secondPath] at there
        exact tree.distinct path another table own anotherOwn here there
      · exact absurd here (missing.fresh.unused first path.length outside own.1)
    · rcases tables second table another.length secondOutside anotherOn anotherOwn.1 with there | ⟨_, otherLength, otherShared⟩
      · exact absurd there (missing.fresh.unused second another.length secondOutside anotherOwn.1)
      · rw [← firstPath, ← secondPath, length, otherLength, shared, otherShared]

-- Whatever is written where no entry was present, a mapped page keeps its translation.
theorem mapped_walk_kept (mem : Memory) (root page entry address : Addr) (value : BitVec 64) (absent : present (mem entry) = false)
    (mapped : walk mem root page = some address) : walk (Function.update mem entry value) root page = some address := by
  rw [same_walk mem _ root page fun level low shared there => write_elsewhere mem entry shared value fun same => ?_]
  · exact mapped
  · rw [walk_absent mem root page level entry (Nat.le_of_lt_succ low) (same ▸ there) absent] at mapped
    cases mapped

theorem missing_step (machine : Machine) (root vaddr : Addr) (level : Nat) (ready : Ready machine root vaddr level) :
    ∃ after, createEntry root (window vaddr level) machine = some after ∧ Made machine after root vaddr (level + 1) ∧
      (level < 2 → Ready after root vaddr (level + 1)) := by
  obtain ⟨entry, here, absent⟩ := ready.missing
  have low := ready.low
  cases frames : machine.frames with
  | nil =>
      have enough := ready.enough
      rw [frames, List.length_nil] at enough
      omega
  | cons page rest =>
      have fresh := ready.fresh
      have clearAll := ready.clear
      rw [frames] at fresh clearAll
      have missing : Missing machine.mem root vaddr entry page level :=
        ⟨ready.recursive, ready.outside, low, here, absent, ready.own, fresh.fresh page List.mem_cons_self⟩
      have clear : Clear machine.mem page := clearAll page (by
        rw [show 3 - level = 2 - level + 1 by omega, List.take_succ_cons]
        exact List.mem_cons_self)
      obtain ⟨absentRest, distinct⟩ := List.nodup_cons.mp fresh.distinct
      have restFresh : ∀ other ∈ rest, FreshFrame (Function.update machine.mem entry (page ||| 0x101)) root other := fun other member =>
        linked_fresh machine.mem root vaddr entry page level missing clear other
          (fresh.fresh other (List.mem_cons_of_mem page member)) (fun same => absentRest (same ▸ member))
      have restClear : ∀ other ∈ rest, Clear machine.mem other →
          Clear (Function.update machine.mem entry (page ||| 0x101)) other := fun other member =>
        linked_clear machine.mem root vaddr entry page level missing other (fresh.fresh other (List.mem_cons_of_mem page member))
      have recursive := linked_recursive machine.mem root vaddr entry page level missing
      have table := linked_table machine.mem root vaddr entry page level missing
      refine ⟨_, create_entry_missing root vaddr machine ready.recursive level entry page rest low here absent frames, ?_, ?_⟩
      · exact ⟨recursive, ⟨page, table⟩, linked_walk machine.mem root vaddr entry page level missing clear,
          fun other address => mapped_walk_kept machine.mem root other entry address _ absent,
          linked_tree machine.mem root vaddr entry page level missing clear, ⟨restFresh, distinct⟩,
          frames ▸ List.suffix_cons page rest, restClear⟩
      · intro upper
        refine ⟨recursive, ready.outside, upper, ⟨_, level_entry_on _ root vaddr (level + 1) page table, ?_⟩,
          linked_own machine.mem root vaddr entry page level missing clear, ⟨restFresh, distinct⟩, ?_, ?_⟩
        · exact linked_clear machine.mem root vaddr entry page level missing page missing.fresh clear _
        · have enough := ready.enough
          rw [frames, List.length_cons] at enough
          dsimp only
          omega
        · intro other member
          refine restClear other (List.mem_of_mem_take member) (clearAll other ?_)
          rw [show 3 - level = 3 - (level + 1) + 1 by omega, List.take_succ_cons]
          exact List.mem_cons_of_mem page member

theorem made_trans (first second third : Machine) (root vaddr : Addr) (level lower : Nat) (made : Made first second root vaddr level)
    (later : Made second third root vaddr lower) : Made first third root vaddr lower where
  recursive := later.recursive
  table := later.table
  walks := fun page outside => (later.walks page outside).trans (made.walks page outside)
  mapped := fun page address mapped => later.mapped page address (made.mapped page address mapped)
  tree := fun tree => later.tree (made.tree tree)
  fresh := later.fresh
  frames := later.frames.trans made.frames
  clear := fun page member clear => later.clear page member (made.clear page (later.frames.subset member) clear)

theorem create_from_missing (machine : Machine) (root vaddr : Addr) (level : Nat) (ready : Ready machine root vaddr level) :
    ∃ after, memCreatePagetable root vaddr machine = some after ∧ Made machine after root vaddr 3 := by
  obtain ⟨entry, here, _⟩ := ready.missing
  have skips := fun level entry low here there => create_entry_there root vaddr machine ready.recursive level entry low here there
  obtain ⟨after, created, made, onward⟩ := missing_step machine root vaddr level ready
  rw [create_windows]
  rcases upper_level_cases level ready.low with rfl | rfl | rfl
  · obtain ⟨middle, second, madeMiddle, onwardMiddle⟩ := missing_step after root vaddr 1 (onward (by decide))
    obtain ⟨last, finished, madeLast, _⟩ := missing_step middle root vaddr 2 (onwardMiddle (by decide))
    rw [created, Option.bind_some, second, Option.bind_some]
    exact ⟨last, finished, made_trans machine after last root vaddr 1 3 made
      (made_trans after middle last root vaddr 2 3 madeMiddle madeLast)⟩
  · obtain ⟨pml4e, pml4eHere, pml4eThere⟩ := entry_above machine.mem root vaddr 0 entry here
    obtain ⟨last, finished, madeLast, _⟩ := missing_step after root vaddr 2 (onward (by decide))
    rw [skips 0 pml4e (by decide) pml4eHere pml4eThere, Option.bind_some, created, Option.bind_some]
    exact ⟨last, finished, made_trans machine after last root vaddr 2 3 made madeLast⟩
  · obtain ⟨pdpte, pdpteHere, pdpteThere⟩ := entry_above machine.mem root vaddr 1 entry here
    obtain ⟨pml4e, pml4eHere, pml4eThere⟩ := entry_above machine.mem root vaddr 0 pdpte pdpteHere
    rw [skips 0 pml4e (by decide) pml4eHere pml4eThere, Option.bind_some, skips 1 pdpte (by decide) pdpteHere pdpteThere,
      Option.bind_some]
    exact ⟨after, created, made⟩

theorem create_there (machine : Machine) (root vaddr : Addr) (recursive : tableAt machine.mem root 510 = some root)
    (pde : Addr) (here : levelEntry machine.mem root vaddr 2 = some pde) (there : present (machine.mem pde) = true) :
    memCreatePagetable root vaddr machine = some machine := by
  have skips := fun level entry low here there => create_entry_there root vaddr machine recursive level entry low here there
  obtain ⟨pdpte, pdpteHere, pdpteThere⟩ := entry_above machine.mem root vaddr 1 pde here
  obtain ⟨pml4e, pml4eHere, pml4eThere⟩ := entry_above machine.mem root vaddr 0 pdpte pdpteHere
  rw [create_windows, skips 0 pml4e (by decide) pml4eHere pml4eThere, Option.bind_some,
    skips 1 pdpte (by decide) pdpteHere pdpteThere, Option.bind_some, skips 2 pde (by decide) here there]

-- The tables of the address are there, every mapped page has the translation it had, and outside the recursive slot no
-- other page is mapped.
def CreatesTables (machine : Machine) (root vaddr : Addr) : Prop :=
  ∃ after, memCreatePagetable root vaddr machine = some after ∧ ptblOf after.mem root vaddr ≠ none ∧
    (∀ page address, walk machine.mem root page = some address → walk after.mem root page = some address) ∧
    ∀ page, OutsideSlot page → walk machine.mem root page = none → walk after.mem root page = none

-- The address has its tables, or those from some level on are missing and the frames they are made from are clear.
def CreateCondition (machine : Machine) (root vaddr : Addr) : Prop :=
  ptblOf machine.mem root vaddr ≠ none ∨ ∃ level ≤ 2, ∃ entry, levelEntry machine.mem root vaddr level = some entry ∧
    present (machine.mem entry) = false ∧ OwnAt machine.mem root vaddr level ∧
      ∀ page ∈ machine.frames.take (3 - level), Clear machine.mem page

section
variable (machine : Machine) (root vaddr : Addr)

theorem creates_tables_of_condition (recursive : tableAt machine.mem root 510 = some root) (outside : OutsideSlot vaddr)
    (fresh : FreshFrames machine.mem root machine.frames) (enough : 3 ≤ machine.frames.length)
    (condition : CreateCondition machine root vaddr) : CreatesTables machine root vaddr := by
  obtain there | ⟨level, low, entry, here, absent, own, clear⟩ := condition
  · obtain ⟨ptbl, ptblOn⟩ := Option.ne_none_iff_exists'.mp there
    obtain ⟨pde, pdeHere, pdeThere, _⟩ :=
      table_entry machine.mem root vaddr 2 ptbl ((ptbl_on_path machine.mem root vaddr).symm.trans ptblOn)
    exact ⟨machine, create_there machine root vaddr recursive pde pdeHere pdeThere, there, fun _ _ same => same,
      fun _ _ same => same⟩
  · obtain ⟨after, created, made⟩ := create_from_missing machine root vaddr level
      ⟨recursive, outside, low, ⟨entry, here, absent⟩, own, fresh, by omega, clear⟩
    obtain ⟨ptbl, ptblOn⟩ := made.table
    refine ⟨after, created, ?_, made.mapped, fun page pageOutside unmapped => (made.walks page pageOutside).trans unmapped⟩
    rw [ptbl_on_path, ptblOn]
    exact Option.some_ne_none ptbl

-- A stale word in a frame that becomes a page table maps a page.
theorem stale_page_table (recursive : tableAt machine.mem root 510 = some root) (outside : OutsideSlot vaddr) (entry page : Addr)
    (rest : List Addr) (frames : machine.frames = page :: rest) (fresh : FreshFrame machine.mem root page)
    (here : levelEntry machine.mem root vaddr 2 = some entry) (absent : present (machine.mem entry) = false)
    (own : OwnAt machine.mem root vaddr 2) (creates : CreatesTables machine root vaddr) : Clear machine.mem page := by
  have missing : Missing machine.mem root vaddr entry page 2 :=
    ⟨recursive, outside, Nat.le_refl 2, here, absent, own, fresh⟩
  obtain ⟨after, created, _, _, unmappedKept⟩ := creates
  obtain ⟨pdpte, pdpteHere, pdpteThere⟩ := entry_above machine.mem root vaddr 1 entry here
  obtain ⟨pml4e, pml4eHere, pml4eThere⟩ := entry_above machine.mem root vaddr 0 pdpte pdpteHere
  rw [create_windows, create_entry_there root vaddr machine recursive 0 pml4e (by decide) pml4eHere pml4eThere, Option.bind_some,
    create_entry_there root vaddr machine recursive 1 pdpte (by decide) pdpteHere pdpteThere, Option.bind_some,
    create_entry_missing root vaddr machine recursive 2 entry page rest (Nat.le_refl 2) here absent frames] at created
  obtain rfl := Option.some.inj created
  intro index
  by_contra stale
  rw [Bool.not_eq_false] at stale
  -- The page of the stale word shares all indices with the address but the last.
  obtain ⟨other, otherPath⟩ := page_with_indices (walkIndex vaddr 39) (walkIndex vaddr 30) (walkIndex vaddr 21) index
  have shared : pathTo other 3 = pathTo vaddr 3 ∧ walkIndex other 12 = index ∧ walkIndex other 39 = walkIndex vaddr 39 := by
    simp only [pathTo, List.nil_append, List.cons_append, List.cons.injEq, and_true] at otherPath ⊢
    exact ⟨⟨otherPath.1, otherPath.2.1, otherPath.2.2.1⟩, otherPath.2.2.2, otherPath.1⟩
  have otherOutside : OutsideSlot other := fun same => outside (shared.2.2.symm.trans same)
  have unmapped : walk machine.mem root other = none := by
    obtain ⟨path, pdirIndex⟩ := (path_to_extend other vaddr 2).mp shared.1
    exact walk_absent machine.mem root other 2 entry (by decide) (by rw [levelEntry, path, pdirIndex]; exact here) absent
  have mapped := unmappedKept other otherOutside unmapped
  have kept : Function.update machine.mem entry (page ||| 0x101) (entryAddr page index) = machine.mem (entryAddr page index) :=
    write_elsewhere machine.mem entry _ _
      (fresh_entry_apart machine.mem root page vaddr entry 2 index recursive fresh outside (by decide) here)
  rw [walk, ptbl_on_path, shared.1, linked_table machine.mem root vaddr entry page 2 missing] at mapped
  dsimp only at mapped
  rw [shared.2.1, pageAt, kept, stale] at mapped
  cases mapped

theorem creates_tables_iff (recursive : tableAt machine.mem root 510 = some root) (outside : OutsideSlot vaddr)
    (fresh : FreshFrames machine.mem root machine.frames) (enough : 3 ≤ machine.frames.length) :
    (CreateCondition machine root vaddr → CreatesTables machine root vaddr) ∧
      (Tree machine.mem root → pdirOf machine.mem root vaddr ≠ none →
        CreatesTables machine root vaddr → CreateCondition machine root vaddr) := by
  refine ⟨creates_tables_of_condition machine root vaddr recursive outside fresh enough, fun tree pdirThere creates => ?_⟩
  obtain ⟨pdir, pdirOn⟩ := Option.ne_none_iff_exists'.mp pdirThere
  have here := level_entry_on machine.mem root vaddr 2 pdir ((pdir_on_path machine.mem root vaddr).symm.trans pdirOn)
  cases there : present (machine.mem (entryAddr pdir (walkIndex vaddr 21))) with
  | true =>
      obtain ⟨after, created, tables, _⟩ := creates
      rw [create_there machine root vaddr recursive _ here there] at created
      obtain rfl := Option.some.inj created
      exact .inl tables
  | false =>
      have own := tree_own_at machine.mem root vaddr 2 tree outside (by decide)
      refine .inr ⟨2, Nat.le_refl 2, _, here, there, own, fun page member => ?_⟩
      cases frames : machine.frames with
      | nil =>
          rw [frames] at enough
          exact absurd enough (by decide)
      | cons first rest =>
          rw [frames] at member
          obtain rfl : page = first := List.mem_singleton.mp member
          exact stale_page_table machine root vaddr recursive outside _ page rest frames
            (fresh.fresh page (frames ▸ List.mem_cons_self)) here there own creates

end

theorem holed_fresh_frame (page : Addr) (whole : frame page = page) (unused : page ∉ [0x1000, 0x2000, 0x3000, (0x4000 : Addr)]) :
    FreshFrame holedTables 0x1000 page where
  whole := whole
  unused := by
    intro vaddr level outside low on
    have known := holed_tables_on (pathTo vaddr level) page (path_to_own vaddr level outside low) on
    simp only [List.mem_cons, Prod.mk.injEq, List.not_mem_nil, or_false] at known unused
    rcases known with ⟨_, rfl⟩ | ⟨_, rfl⟩ | ⟨_, rfl⟩ | ⟨_, rfl⟩ <;> simp at unused

theorem holed_fresh_frames : FreshFrames holedTables 0x1000 [0x5000, 0x6000, 0x7000, 0x8000] where
  fresh := by
    intro page member
    simp only [List.mem_cons, List.not_mem_nil, or_false] at member
    rcases member with rfl | rfl | rfl | rfl <;> exact holed_fresh_frame _ (by decide) (by decide)
  distinct := by decide

theorem hole_filled : CreatesTables ⟨holedTables, [0x5000, 0x6000, 0x7000, 0x8000]⟩ 0x1000 0x1FF000 := by
  have outside : OutsideSlot 0x1FF000 := by decide
  refine (creates_tables_iff ⟨holedTables, [0x5000, 0x6000, 0x7000, 0x8000]⟩ 0x1000 0x1FF000 (by decide) outside holed_fresh_frames
    (by decide)).1 (.inr ⟨2, Nat.le_refl 2, 0x3000, by decide, by decide, ?_, ?_⟩)
  · exact tree_own_at holedTables 0x1000 0x1FF000 2 holed_tables_tree outside (by decide)
  · intro page member
    obtain rfl := List.mem_singleton.mp member
    unfold Clear
    decide +kernel

-- The frame at 0x5000 still holds a word of its last use.
def staleTables : Memory := Function.update holedTables 0x5000 0x400001

theorem stale_tables_kept : TablesKept holedTables staleTables 0x1000 := by
  intro path table index _ own on
  refine write_elsewhere holedTables 0x5000 _ _ fun same => ?_
  have known := holed_tables_on path table own on
  simp only [List.mem_cons, Prod.mk.injEq, List.not_mem_nil, or_false] at known
  rcases known with ⟨_, rfl⟩ | ⟨_, rfl⟩ | ⟨_, rfl⟩ | ⟨_, rfl⟩ <;> revert index <;> decide +kernel

theorem stale_fresh_frames : FreshFrames staleTables 0x1000 [0x5000, 0x6000, 0x7000, 0x8000] where
  fresh := by
    intro page member
    obtain ⟨whole, unused⟩ := holed_fresh_frames.fresh page member
    refine ⟨whole, fun vaddr level outside low on => unused vaddr level outside low ?_⟩
    rwa [tables_kept_on holedTables staleTables 0x1000 (by decide) stale_tables_kept _ ((path_to_length vaddr level).trans_le low)] at on
  distinct := by decide

-- The table made for one page maps another.
theorem stale_word_maps_page :
    Tree staleTables 0x1000 ∧ FreshFrames staleTables 0x1000 [0x5000, 0x6000, 0x7000, 0x8000] ∧ walk staleTables 0x1000 0 = none ∧
      memCreatePagetable 0x1000 0x1FF000 ⟨staleTables, [0x5000, 0x6000, 0x7000, 0x8000]⟩ =
        some ⟨Function.update staleTables 0x3000 0x5101, [0x6000, 0x7000, 0x8000]⟩ ∧
      walk (Function.update staleTables 0x3000 0x5101) 0x1000 0 = some 0x400000 ∧
      ¬ CreatesTables ⟨staleTables, [0x5000, 0x6000, 0x7000, 0x8000]⟩ 0x1000 0x1FF000 := by
  have unmapped : walk staleTables 0x1000 0 = none := by decide
  have mapped : walk (Function.update staleTables 0x3000 0x5101) 0x1000 0 = some 0x400000 := by decide
  have created : memCreatePagetable 0x1000 0x1FF000 ⟨staleTables, [0x5000, 0x6000, 0x7000, 0x8000]⟩ =
      some ⟨Function.update staleTables 0x3000 0x5101, [0x6000, 0x7000, 0x8000]⟩ := by
    rw [create_windows, create_entry_there 0x1000 0x1FF000 _ (by decide) 0 0x1000 (by decide) (by decide) (by decide), Option.bind_some,
      create_entry_there 0x1000 0x1FF000 _ (by decide) 1 0x2000 (by decide) (by decide) (by decide), Option.bind_some,
      create_entry_missing 0x1000 0x1FF000 _ (by decide) 2 0x3000 0x5000 [0x6000, 0x7000, 0x8000] (by decide) (by decide) (by decide) rfl]
    rfl
  refine ⟨tree_kept _ _ _ holed_tables_tree stale_tables_kept, stale_fresh_frames, unmapped, created, mapped, ?_⟩
  rintro ⟨after, done, _, _, unmappedKept⟩
  obtain rfl := Option.some.inj (created.symm.trans done)
  have same := unmappedKept 0 (by decide) unmapped
  rw [mapped] at same
  cases same

end Kraftwerk.Paging
