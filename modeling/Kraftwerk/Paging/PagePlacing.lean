import Kraftwerk.Paging.DemandPaging

set_option autoImplicit false

-- What is mapped at each page while tables are made and entries are written, where no page is larger than 4 KiB.
namespace Kraftwerk.Paging

def presentWord (word : BitVec 64) : Option (BitVec 64) := if present word then some word else none

-- The present entry of a page, if its tables are there.
def mapping (mem : Memory) (root vaddr : Addr) : Option (BitVec 64) :=
  (levelEntry mem root vaddr 3).bind fun entry => presentWord (mem entry)

-- No present entry above the page tables maps a page.
def Plain (mem : Memory) (root : Addr) : Prop :=
  ∀ path table index, path.length ≤ 2 → OwnPath path → tableOn mem root path = some table →
    present (mem (entryAddr table index)) = true → huge (mem (entryAddr table index)) = false

section
variable (mem other : Memory) (root vaddr : Addr)

theorem plain_level (plain : Plain mem root) (outside : OutsideSlot vaddr) (level : Nat) (entry : Addr) (low : level ≤ 2)
    (here : levelEntry mem root vaddr level = some entry) (there : present (mem entry) = true) : huge (mem entry) = false := by
  obtain ⟨table, on, rfl⟩ := Option.map_eq_some_iff.mp here
  exact plain _ table _ ((path_to_length vaddr level).trans_le low) (path_to_own vaddr level outside (low.trans (by decide))) on there

theorem plain_absent (plain : Plain mem root) (outside : OutsideSlot vaddr) (level : Nat) (table : Addr) (low : level ≤ 2)
    (on : tableOn mem root (pathTo vaddr level) = some table) (none : tableOn mem root (pathTo vaddr (level + 1)) = none) :
    MissingTable mem root vaddr := by
  have here := level_entry_on mem root vaddr level table on
  refine ⟨level, low, _, here, ?_⟩
  rw [table_on_next, on, Option.bind_some, tableAt] at none
  cases there : present (mem (entryAddr table (walkIndex vaddr (39 - 9 * level)))) with
  | false => rfl
  | true => simp [there, plain_level mem root vaddr plain outside level _ low here there] at none

theorem plain_missing (plain : Plain mem root) (outside : OutsideSlot vaddr) (none : ptblOf mem root vaddr = none) :
    MissingTable mem root vaddr := by
  have absent := plain_absent mem root vaddr plain outside
  rw [ptbl_on_path] at none
  cases pdptOn : tableOn mem root (pathTo vaddr 1) with
  | none => exact absent 0 root (by decide) rfl pdptOn
  | some pdpt =>
      cases pdirOn : tableOn mem root (pathTo vaddr 2) with
      | none => exact absent 1 pdpt (by decide) pdptOn pdirOn
      | some pdir => exact absent 2 pdir (by decide) pdirOn none

theorem walk_mapping (plain : Plain mem root) (outside : OutsideSlot vaddr) :
    walk mem root vaddr = (mapping mem root vaddr).map fun entry => frame entry + (vaddr &&& 0xFFF) := by
  cases ptblOn : ptblOf mem root vaddr with
  | none =>
      obtain ⟨level, low, entry, here, absent⟩ := plain_missing mem root vaddr plain outside ptblOn
      rw [walk_absent mem root vaddr level entry (low.trans (by decide)) here absent, mapping, levelEntry, ← ptbl_on_path, ptblOn]
      rfl
  | some ptbl =>
      rw [walk, ptblOn, mapping, levelEntry, ← ptbl_on_path, ptblOn]
      dsimp only
      rw [Option.map_some, Option.bind_some, presentWord, pageAt]
      split <;> rfl

theorem same_mapping (same : SameEntries mem other root vaddr 4) : mapping other root vaddr = mapping mem root vaddr := by
  rw [mapping, mapping, same_level_entry mem other root vaddr 4 3 same (by decide)]
  exact Option.bind_congr fun entry here => congrArg presentWord (same 3 (by decide) entry here)

theorem same_page_mapping (user : Addr) (same : SamePage user vaddr) : mapping mem root user = mapping mem root vaddr := by
  obtain ⟨path, index⟩ := (path_to_extend user vaddr 3).mp same
  rw [mapping, mapping, levelEntry, levelEntry, path, index]

theorem mapping_absent (level : Nat) (entry : Addr) (low : level ≤ 3) (here : levelEntry mem root vaddr level = some entry)
    (absent : present (mem entry) = false) : mapping mem root vaddr = none := by
  rcases Nat.lt_or_eq_of_le low with below | rfl
  · obtain ⟨more, top⟩ := Nat.exists_eq_add_of_le below
    rw [mapping, levelEntry, top, absent_below mem root vaddr level more entry here absent]
    rfl
  · rw [mapping, here, Option.bind_some, presentWord, absent, if_neg Bool.false_ne_true]

end

-- A frame below 2^52 that starts at a page boundary is what an entry with its address leads to.
theorem same_page_outside (user vaddr : Addr) (same : SamePage user vaddr) (outside : OutsideSlot vaddr) : OutsideSlot user := by
  have first := congrArg List.head? same
  rw [path_to_head, path_to_head] at first
  exact fun slot => outside (slot ▸ (Option.some.inj first).symm)

theorem whole_frame (page : Addr) (aligned : page.toNat % 4096 = 0) (small : page.toNat < 2 ^ 52) : frame page = page := by
  apply BitVec.eq_of_toNat_eq
  have mask : (0x000FFFFFFFFFF000 : BitVec 64).toNat = 2 ^ 52 - 2 ^ 12 := rfl
  apply Nat.eq_of_testBit_eq
  intro index
  rw [frame, BitVec.toNat_and, mask, Nat.testBit_and]
  have split : (2 ^ 52 - 2 ^ 12 : Nat).testBit index = (decide (12 ≤ index) && decide (index < 52)) := by
    rw [show (2 ^ 52 - 2 ^ 12 : Nat) = (2 ^ 40 - 1) * 2 ^ 12 by rfl, Nat.testBit_mul_two_pow, Nat.testBit_two_pow_sub_one]
    by_cases low : 12 ≤ index
    · simp only [low, decide_true, Bool.true_and]
      exact decide_eq_decide.mpr ⟨fun below => by omega, fun below => by omega⟩
    · simp only [low, decide_false, Bool.false_and]
  rw [split]
  by_cases low : 12 ≤ index
  · by_cases below : index < 52
    · simp only [low, below, decide_true, Bool.and_self, Bool.and_true]
    · have high : page.toNat < 2 ^ index := Nat.lt_of_lt_of_le small (Nat.pow_le_pow_right (by decide) (by omega))
      rw [Nat.testBit_lt_two_pow high, Bool.false_and]
  · have zero : page.toNat.testBit index = false := by
      obtain ⟨pages, pageEq⟩ := Nat.dvd_of_mod_eq_zero aligned
      rw [pageEq, show 4096 * pages = pages * 2 ^ 12 by omega, Nat.testBit_mul_two_pow, decide_eq_false low, Bool.false_and]
    rw [zero, Bool.false_and]

section
variable (mem : Memory) (root vaddr entry page : Addr) (level : Nat)

theorem linked_mapping (missing : Missing mem root vaddr entry page level) (clear : Clear mem page) (user : Addr)
    (outside : OutsideSlot user) : mapping (Function.update mem entry (page ||| 0x101)) root user = mapping mem root user := by
  by_cases apart : pathTo user (level + 1) = pathTo vaddr (level + 1)
  · have low := missing.low
    have linked := linked_table mem root vaddr entry page level missing
    rw [← apart] at linked
    have noEntry := linked_clear mem root vaddr entry page level missing page missing.fresh clear
    have shared : levelEntry mem root user level = some entry := by
      obtain ⟨path, index⟩ := (path_to_extend user vaddr level).mp apart
      rw [levelEntry, path, index]
      exact missing.here
    rw [mapping_absent _ root user (level + 1) _ (by omega) (level_entry_on _ root user (level + 1) page linked) (noEntry _),
      mapping_absent mem root user level entry (by omega) shared missing.absent]
  · exact same_mapping mem _ root user (linked_elsewhere mem root vaddr entry page level missing user outside apart)

theorem linked_plain (missing : Missing mem root vaddr entry page level) (clear : Clear mem page) (plain : Plain mem root) :
    Plain (Function.update mem entry (page ||| 0x101)) root := by
  intro path table index short own on there
  obtain ⟨user, outside, userPath⟩ := own_path_page path own
  by_cases same : entryAddr table index = entry
  · rw [same, Function.update_self]
    exact (linked_entry page missing.fresh.whole).2.1
  · rw [← userPath] at on
    rw [write_elsewhere mem entry _ _ same] at there ⊢
    rcases linked_tables mem root vaddr entry page level missing clear user table path.length outside on own.1 with before | new
    · rw [userPath] at before
      exact plain path table index short own before there
    · rw [new.1, clear index] at there
      cases there

end

-- What making tables keeps. The frames that are not drawn for them, and that no table is in, keep their words.
structure LinkKept (mem other : Memory) (root : Addr) (frames : List Addr) : Prop where
  plain : Plain mem root → Plain other root
  mapped : ∀ user, OutsideSlot user → mapping other root user = mapping mem root user
  unused : ∀ page, page ∉ frames → FreshFrame mem root page → FreshFrame other root page
  words : ∀ page, page ∉ frames → FreshFrame mem root page → ∀ index, other (entryAddr page index) = mem (entryAddr page index)

theorem link_kept_refl (mem : Memory) (root : Addr) (frames : List Addr) : LinkKept mem mem root frames :=
  ⟨fun plain => plain, fun _ _ => rfl, fun _ _ fresh => fresh, fun _ _ _ _ => rfl⟩

theorem link_kept_trans (first second third : Memory) (root : Addr) (frames rest : List Addr) (fewer : rest ⊆ frames)
    (kept : LinkKept first second root frames) (later : LinkKept second third root rest) : LinkKept first third root frames where
  plain := fun plain => later.plain (kept.plain plain)
  mapped := fun user outside => (later.mapped user outside).trans (kept.mapped user outside)
  unused := fun page absent fresh => later.unused page (fun member => absent (fewer member)) (kept.unused page absent fresh)
  words := fun page absent fresh index =>
    (later.words page (fun member => absent (fewer member)) (kept.unused page absent fresh) index).trans
      (kept.words page absent fresh index)

section
variable (root vaddr : Addr)

theorem created_entry_kept (machine after : Machine) (level : Nat) (ready : Ready machine root vaddr level)
    (created : createEntry root (window vaddr level) machine = some after) :
    LinkKept machine.mem after.mem root machine.frames := by
  obtain ⟨entry, here, absent⟩ := ready.missing
  have low := ready.low
  have enough := ready.enough
  have fresh := ready.fresh
  have clearAll := ready.clear
  cases frames : machine.frames with
  | nil =>
      rw [frames, List.length_nil] at enough
      omega
  | cons page rest =>
      rw [frames] at fresh clearAll
      have missing : Missing machine.mem root vaddr entry page level :=
        ⟨ready.recursive, ready.outside, low, here, absent, ready.own, fresh.fresh page List.mem_cons_self⟩
      have clear : Clear machine.mem page := clearAll page (by
        rw [show 3 - level = 2 - level + 1 by omega, List.take_succ_cons]
        exact List.mem_cons_self)
      rw [create_entry_missing root vaddr machine ready.recursive level entry page rest low here absent frames] at created
      obtain rfl := Option.some.inj created
      refine ⟨linked_plain machine.mem root vaddr entry page level missing clear,
        linked_mapping machine.mem root vaddr entry page level missing clear, ?_, ?_⟩
      · exact fun other absentOther otherFresh => linked_fresh machine.mem root vaddr entry page level missing clear other otherFresh
          (fun same => absentOther (same ▸ List.mem_cons_self))
      · exact fun other _ otherFresh index => write_elsewhere machine.mem entry _ _ (fresh_entry_apart machine.mem root other vaddr entry
          level index ready.recursive otherFresh ready.outside (by omega) here)

theorem created_kept (machine after : Machine) (level : Nat) (ready : Ready machine root vaddr level)
    (created : memCreatePagetable root vaddr machine = some after) : LinkKept machine.mem after.mem root machine.frames := by
  obtain ⟨entry, here, _⟩ := ready.missing
  have skips := fun level entry low here there => create_entry_there root vaddr machine ready.recursive level entry low here there
  obtain ⟨first, createdFirst, made, onward⟩ := missing_step machine root vaddr level ready
  have kept := created_entry_kept root vaddr machine first level ready createdFirst
  rw [create_windows] at created
  rcases upper_level_cases level ready.low with rfl | rfl | rfl
  · have readyFirst := onward (by decide)
    obtain ⟨second, createdSecond, madeSecond, onwardSecond⟩ := missing_step first root vaddr 1 readyFirst
    have readySecond := onwardSecond (by decide)
    obtain ⟨last, createdLast, _⟩ := missing_step second root vaddr 2 readySecond
    rw [createdFirst, Option.bind_some, createdSecond, Option.bind_some, createdLast] at created
    obtain rfl := Option.some.inj created
    exact link_kept_trans _ _ _ root _ _ made.frames.subset kept
      (link_kept_trans _ _ _ root _ _ madeSecond.frames.subset
        (created_entry_kept root vaddr first second 1 readyFirst createdSecond)
        (created_entry_kept root vaddr second last 2 readySecond createdLast))
  · obtain ⟨pml4e, pml4eHere, pml4eThere⟩ := entry_above machine.mem root vaddr 0 entry here
    have readyFirst := onward (by decide)
    obtain ⟨last, createdLast, _⟩ := missing_step first root vaddr 2 readyFirst
    rw [skips 0 pml4e (by decide) pml4eHere pml4eThere, Option.bind_some, createdFirst, Option.bind_some, createdLast] at created
    obtain rfl := Option.some.inj created
    exact link_kept_trans _ _ _ root _ _ made.frames.subset kept
      (created_entry_kept root vaddr first last 2 readyFirst createdLast)
  · obtain ⟨pdpte, pdpteHere, pdpteThere⟩ := entry_above machine.mem root vaddr 1 entry here
    obtain ⟨pml4e, pml4eHere, pml4eThere⟩ := entry_above machine.mem root vaddr 0 pdpte pdpteHere
    rw [skips 0 pml4e (by decide) pml4eHere pml4eThere, Option.bind_some, skips 1 pdpte (by decide) pdpteHere pdpteThere,
      Option.bind_some, createdFirst] at created
    obtain rfl := Option.some.inj created
    exact kept

end

-- Memory that the pager works on: a tree without large pages, and frames that nothing uses.
structure Pageable (root : Addr) (machine : Machine) : Prop where
  tree : Tree machine.mem root
  plain : Plain machine.mem root
  fresh : FreshFrames machine.mem root machine.frames
  clear : ∀ page ∈ machine.frames, Clear machine.mem page

theorem pageable_rest (root : Addr) (mem : Memory) (page : Addr) (rest : List Addr) (pageable : Pageable root ⟨mem, page :: rest⟩) :
    Pageable root ⟨mem, rest⟩ where
  tree := pageable.tree
  plain := pageable.plain
  fresh := ⟨fun other member => pageable.fresh.fresh other (List.mem_cons_of_mem page member),
    (List.nodup_cons.mp pageable.fresh.distinct).2⟩
  clear := fun other member => pageable.clear other (List.mem_cons_of_mem page member)

-- What a call keeps whatever it maps: a page frame that no table is in and that is not drawn stays so, with its words.
structure FramesKept (mem other : Memory) (root : Addr) (frames : List Addr) : Prop where
  unused : ∀ page, page ∉ frames → FreshFrame mem root page → FreshFrame other root page
  words : ∀ page, page ∉ frames → FreshFrame mem root page → ∀ index, other (entryAddr page index) = mem (entryAddr page index)

theorem frames_kept_trans (first second third : Memory) (root : Addr) (frames rest : List Addr) (fewer : rest ⊆ frames)
    (kept : FramesKept first second root frames) (later : FramesKept second third root rest) : FramesKept first third root frames where
  unused := fun page absent fresh => later.unused page (fun member => absent (fewer member)) (kept.unused page absent fresh)
  words := fun page absent fresh index =>
    (later.words page (fun member => absent (fewer member)) (kept.unused page absent fresh) index).trans
      (kept.words page absent fresh index)

theorem tables_found (root vaddr : Addr) (machine : Machine) (pageable : Pageable root machine) (outside : OutsideSlot vaddr)
    (enough : 3 ≤ machine.frames.length) :
    ∃ there after, memCheckPagetable root vaddr machine.mem = some there ∧
      (if !there then memCreatePagetable root vaddr machine else some machine) = some after ∧
      Made machine after root vaddr 3 ∧ LinkKept machine.mem after.mem root machine.frames := by
  have recursive := pageable.tree.recursive
  cases ptblOn : ptblOf machine.mem root vaddr with
  | some ptbl =>
      refine ⟨true, machine, check_there machine.mem root vaddr recursive ptbl ptblOn, rfl, ?_, link_kept_refl _ root _⟩
      exact made_refl machine root vaddr 3 recursive pageable.fresh ⟨ptbl, (ptbl_on_path machine.mem root vaddr).symm.trans ptblOn⟩
  | none =>
      obtain ⟨level, low, entry, here, absent⟩ := plain_missing machine.mem root vaddr pageable.plain outside ptblOn
      have ready : Ready machine root vaddr level :=
        ⟨recursive, outside, low, ⟨entry, here, absent⟩,
          tree_own_at machine.mem root vaddr level pageable.tree outside (low.trans (by decide)), pageable.fresh, by omega,
          fun page member => pageable.clear page (List.mem_of_mem_take member)⟩
      obtain ⟨after, created, made⟩ := create_from_missing machine root vaddr level ready
      exact ⟨false, after, check_absent machine.mem root vaddr recursive level entry low here absent, created, made,
        created_kept root vaddr machine after level ready created⟩

theorem create_entry_draws (root window : Addr) (machine after : Machine) (created : createEntry root window machine = some after) :
    machine.frames.length ≤ after.frames.length + 1 := by
  obtain ⟨entry, _, rest⟩ := Option.bind_eq_some_iff.mp created
  split at rest
  · obtain ⟨⟨table, popped⟩, drawn, linked⟩ := Option.bind_eq_some_iff.mp rest
    obtain ⟨mem, _, rfl⟩ := Option.map_eq_some_iff.mp linked
    rw [allocate] at drawn
    split at drawn
    · cases drawn
    · rename_i frames
      cases drawn
      rw [frames, List.length_cons]
  · obtain rfl := Option.some.inj rest
    exact Nat.le_succ _

theorem create_draws (root vaddr : Addr) (machine after : Machine) (created : memCreatePagetable root vaddr machine = some after) :
    machine.frames.length ≤ after.frames.length + 3 := by
  rw [create_windows] at created
  obtain ⟨first, createdFirst, later⟩ := Option.bind_eq_some_iff.mp created
  obtain ⟨second, createdSecond, createdLast⟩ := Option.bind_eq_some_iff.mp later
  have one := create_entry_draws root _ machine first createdFirst
  have two := create_entry_draws root _ first second createdSecond
  have three := create_entry_draws root _ second after createdLast
  omega

-- One entry of a page table is written.
structure EntryPlaced (mem other : Memory) (root vaddr : Addr) (value : BitVec 64) : Prop where
  tree : Tree other root
  plain : Plain mem root → Plain other root
  tables : ∀ user, ∀ level ≤ 3, tableOn other root (pathTo user level) = tableOn mem root (pathTo user level)
  here : mapping other root vaddr = presentWord value
  others : ∀ user, ¬ SamePage user vaddr → mapping other root user = mapping mem root user
  frames : FramesKept mem other root []

theorem fresh_on_tables (mem other : Memory) (root page : Addr)
    (same : ∀ vaddr, ∀ level ≤ 3, tableOn other root (pathTo vaddr level) = tableOn mem root (pathTo vaddr level))
    (fresh : FreshFrame mem root page) : FreshFrame other root page where
  whole := fresh.whole
  unused := fun vaddr level outside low on => fresh.unused vaddr level outside low ((same vaddr level low).symm.trans on)

theorem plain_tables_kept (mem other : Memory) (root : Addr) (recursive : tableAt mem root 510 = some root)
    (kept : TablesKept mem other root) (plain : Plain mem root) : Plain other root := by
  intro path table index short own on there
  rw [tables_kept_on mem other root recursive kept path (short.trans (by decide))] at on
  rw [kept path table index short own on] at there ⊢
  exact plain path table index short own on there

theorem entry_placed (mem : Memory) (root vaddr ptbl : Addr) (value : BitVec 64) (tree : Tree mem root) (outside : OutsideSlot vaddr)
    (on : tableOn mem root (pathTo vaddr 3) = some ptbl) :
    ∃ other, storeEntry root vaddr mem value = some other ∧ EntryPlaced mem other root vaddr value := by
  have recursive := tree.recursive
  have here := level_entry_on mem root vaddr 3 ptbl on
  have kept := page_write_kept mem root vaddr _ value tree outside here
  have tables := fun user level low => tables_kept_on mem _ root recursive kept _ ((path_to_length user level).trans_le low)
  refine ⟨_, store_entry_here mem root vaddr recursive _ ((ptbl_entry_level mem root vaddr).trans here) value,
    tree_kept mem _ root tree kept, plain_tables_kept mem _ root recursive kept, tables, ?_,
    fun user apart => same_mapping mem _ root user (page_write_elsewhere mem root vaddr _ value tree outside here user apart), ?_, ?_⟩
  · rw [mapping, tables_kept_entry mem _ root vaddr recursive kept 3 (Nat.le_refl 3), here, Option.bind_some, Function.update_self]
  · exact fun page _ fresh => fresh_on_tables mem _ root page tables fresh
  · exact fun page _ fresh index => write_elsewhere mem _ _ value
      (fresh_entry_apart mem root page vaddr _ 3 index recursive fresh outside (Nat.le_refl 3) here)

-- A word of a page frame that no table is in.
structure DataKept (mem other : Memory) (root : Addr) : Prop where
  tree : Tree other root
  plain : Plain other root
  mapped : ∀ user, OutsideSlot user → mapping other root user = mapping mem root user
  fresh : ∀ page, FreshFrame mem root page → FreshFrame other root page

theorem data_write_kept (mem : Memory) (root page : Addr) (index : BitVec 9) (value : BitVec 64) (tree : Tree mem root)
    (plain : Plain mem root) (fresh : FreshFrame mem root page) :
    DataKept mem (Function.update mem (entryAddr page index) value) root := by
  have recursive := tree.recursive
  have kept : TablesKept mem (Function.update mem (entryAddr page index) value) root := by
    intro path table other short own on
    refine write_elsewhere mem _ _ value fun same => ?_
    obtain ⟨user, outside, userPath⟩ := own_path_page path own
    rw [← userPath] at on
    obtain ⟨rfl, _⟩ := entry_addr_inj table page other index (table_on_aligned mem root table _ (root_aligned mem root recursive) on)
      (fresh.whole ▸ frame_aligned page) same
    exact fresh.unused user path.length outside own.1 on
  have tables := fun user level (low : level ≤ 3) =>
    tables_kept_on mem _ root recursive kept (pathTo user level) ((path_to_length user level).trans_le low)
  refine ⟨tree_kept mem _ root tree kept, plain_tables_kept mem _ root recursive kept plain, fun user outside => ?_,
    fun other otherFresh => fresh_on_tables mem _ root other tables otherFresh⟩
  refine same_mapping mem _ root user fun level low entry here => write_elsewhere mem _ _ value fun same => ?_
  exact fresh_entry_apart mem root page user entry level index recursive fresh outside (Nat.le_of_lt_succ low) here same.symm

-- A page gets its entry, in tables that are there or are made for it.
structure PagePlaced (root vaddr : Addr) (value : BitVec 64) (machine after : Machine) : Prop where
  pageable : Pageable root after
  frames : after.frames <:+ machine.frames
  draws : machine.frames.length ≤ after.frames.length + 3
  here : mapping after.mem root vaddr = presentWord value
  others : ∀ user, OutsideSlot user → ¬ SamePage user vaddr → mapping after.mem root user = mapping machine.mem root user
  kept : FramesKept machine.mem after.mem root machine.frames

theorem page_placed (root vaddr : Addr) (value : BitVec 64) (machine : Machine) (pageable : Pageable root machine)
    (outside : OutsideSlot vaddr) (enough : 3 ≤ machine.frames.length) :
    ∃ there made mem, memCheckPagetable root vaddr machine.mem = some there ∧
      (if !there then memCreatePagetable root vaddr machine else some machine) = some made ∧
      storeEntry root vaddr made.mem value = some mem ∧ PagePlaced root vaddr value machine { made with mem := mem } := by
  obtain ⟨there, made, checked, found, tables, linked⟩ := tables_found root vaddr machine pageable outside enough
  obtain ⟨ptbl, on⟩ := tables.table
  obtain ⟨mem, stored, placed⟩ := entry_placed made.mem root vaddr ptbl value (tables.tree pageable.tree) outside on
  refine ⟨there, made, mem, checked, found, stored,
    ⟨⟨placed.tree, placed.plain (linked.plain pageable.plain), ?_, ?_⟩, tables.frames, ?_, placed.here, ?_, ?_⟩⟩
  · exact ⟨fun page member => placed.frames.unused page List.not_mem_nil (tables.fresh.fresh page member), tables.fresh.distinct⟩
  · intro page member index
    dsimp only at member ⊢
    rw [placed.frames.words page List.not_mem_nil (tables.fresh.fresh page member) index]
    exact tables.clear page member (pageable.clear page (tables.frames.subset member)) index
  · split at found
    · exact create_draws root vaddr machine made found
    · rw [← Option.some.inj found]
      exact Nat.le_add_right _ _
  · exact fun user userOutside apart => (placed.others user apart).trans (linked.mapped user userOutside)
  · exact frames_kept_trans machine.mem made.mem mem root machine.frames [] (List.nil_subset _) ⟨linked.unused, linked.words⟩ placed.frames

-- A fault takes the first frame for the page.
theorem fault_placed (root vaddr : Addr) (errcode : BitVec 64) (pager : Pager) (page : Addr) (rest : List Addr)
    (pageable : Pageable root ⟨pager.mem, rest⟩) (idle : pager.pfaulting = false) (frames : pager.frames = page :: rest)
    (notNull : ¬ vaddr < 0x1000) (outside : OutsideSlot vaddr) (enough : 3 ≤ rest.length) :
    ∃ after, handlePagefault root errcode vaddr pager = some after ∧ after.pfaulting = false ∧
      PagePlaced root vaddr ((page &&& ~~~0xFFF) ||| 0x1) ⟨pager.mem, rest⟩ after.toMachine := by
  obtain ⟨there, made, mem, checked, found, stored, placed⟩ :=
    page_placed root vaddr ((page &&& ~~~0xFFF) ||| 0x1) ⟨pager.mem, rest⟩ pageable outside enough
  refine ⟨⟨{ made with mem := mem }, false⟩, ?_, rfl, placed⟩
  rw [handlePagefault, idle, if_neg Bool.false_ne_true, if_neg notNull, allocate, frames]
  dsimp only
  rw [Option.bind_some, checked, Option.bind_some, found, Option.bind_some, stored]
  rfl

-- The pages of a range get their entries, and no other page gets another one.
structure RangePlaced (root vaddr : Addr) (count : Nat) (value : Nat → BitVec 64) (mem other : Memory) : Prop where
  range : ∀ index < count, mapping other root (pageOf vaddr index) = presentWord (value index)
  others : ∀ user, OutsideSlot user → (∀ index < count, ¬ SamePage user (pageOf vaddr index)) →
    mapping other root user = mapping mem root user

section
variable (root vaddr : Addr) (count : Nat)

theorem next_page_apart (index : Nat) (below : index < count) (fits : count + 1 ≤ 2 ^ 32) :
    ¬ SamePage (pageOf (vaddr + 0x1000) index) vaddr := by
  intro same
  rw [page_of_next] at same
  have first : SamePage (pageOf vaddr (index + 1)) (pageOf vaddr 0) := by rwa [page_of_zero]
  exact Nat.succ_ne_zero index (pages_apart vaddr (index + 1) 0 (by omega) (by decide) first)

theorem range_placed_cons (value : Nat → BitVec 64) (mem first other : Memory) (fits : count + 1 ≤ 2 ^ 32)
    (outside : ∀ index < count + 1, OutsideSlot (pageOf vaddr index)) (here : mapping first root vaddr = presentWord (value 0))
    (apart : ∀ user, OutsideSlot user → ¬ SamePage user vaddr → mapping first root user = mapping mem root user)
    (later : RangePlaced root (vaddr + 0x1000) count (fun index => value (index + 1)) first other) :
    RangePlaced root vaddr (count + 1) value mem other where
  range := by
    intro index below
    cases index with
    | zero =>
        have vaddrOutside := outside 0 below
        rw [page_of_zero] at vaddrOutside ⊢
        rw [later.others vaddr vaddrOutside fun index inside same =>
          next_page_apart vaddr count index inside fits same.symm]
        exact here
    | succ index =>
        rw [← page_of_next]
        exact later.range index (Nat.lt_of_succ_lt_succ below)
  others := by
    intro user userOutside different
    have first := different 0 (Nat.succ_pos count)
    rw [page_of_zero] at first
    rw [later.others user userOutside fun index below => by
      rw [page_of_next]
      exact different (index + 1) (Nat.succ_lt_succ below)]
    exact apart user userOutside first

theorem range_outside_next (outside : ∀ index < count + 1, OutsideSlot (pageOf vaddr index)) :
    ∀ index < count, OutsideSlot (pageOf (vaddr + 0x1000) index) := fun index below => by
  rw [page_of_next]
  exact outside (index + 1) (Nat.succ_lt_succ below)

end

-- map_range makes the tables that are missing, three frames a page at most.
theorem map_pages_placed (root : Addr) (pflags : BitVec 32) (count : Nat) (vaddr paddr : Addr) (machine : Machine)
    (pageable : Pageable root machine) (fits : count ≤ 2 ^ 32) (outside : ∀ index < count, OutsideSlot (pageOf vaddr index))
    (enough : 3 * count ≤ machine.frames.length) :
    ∃ after, mapPages root pflags count vaddr paddr machine = some after ∧ Pageable root after ∧ after.frames <:+ machine.frames ∧
      machine.frames.length ≤ after.frames.length + 3 * count ∧
      RangePlaced root vaddr count (fun index => mappedEntry pflags (pageOf paddr index)) machine.mem after.mem ∧
      FramesKept machine.mem after.mem root machine.frames := by
  induction count generalizing vaddr paddr machine with
  | zero =>
      exact ⟨machine, rfl, pageable, List.suffix_refl _, Nat.le_refl _,
        ⟨fun index below => absurd below (Nat.not_lt_zero index), fun _ _ _ => rfl⟩, ⟨fun _ _ fresh => fresh, fun _ _ _ _ => rfl⟩⟩
  | succ count ih =>
      have vaddrOutside := outside 0 (Nat.succ_pos count)
      rw [page_of_zero] at vaddrOutside
      obtain ⟨there, made, mem, checked, found, stored, placed⟩ :=
        page_placed root vaddr (mappedEntry pflags paddr) machine pageable vaddrOutside (by omega)
      have draws := placed.draws
      obtain ⟨after, done, afterPageable, frames, fewer, range, kept⟩ := ih (vaddr + 0x1000) (paddr + 0x1000) { made with mem := mem }
        placed.pageable (Nat.le_of_succ_le fits) (range_outside_next vaddr count outside) (by omega)
      refine ⟨after, ?_, afterPageable, frames.trans placed.frames, by omega, ?_,
        frames_kept_trans machine.mem mem after.mem root machine.frames _ placed.frames.subset placed.kept kept⟩
      · rw [mapPages, checked, Option.bind_some, found, Option.bind_some, ← mappedEntry, stored, Option.bind_some]
        exact done
      · refine range_placed_cons root vaddr count _ machine.mem mem after.mem fits outside ?_ placed.others ?_
        · rw [page_of_zero]
          exact placed.here
        · simp only [← page_of_next]
          exact range

-- unmap_range stops at the first page without a page table; no page that is mapped lies behind it.
theorem unmap_pages_placed (root : Addr) (count : Nat) (vaddr : Addr) (mem : Memory) (tree : Tree mem root) (plain : Plain mem root)
    (fits : count ≤ 2 ^ 32) (outside : ∀ index < count, OutsideSlot (pageOf vaddr index))
    (condition : ∀ index < count, mapping mem root (pageOf vaddr index) ≠ none →
      ∀ before ≤ index, ptblOf mem root (pageOf vaddr before) ≠ none) :
    ∃ other, unmapPages root count vaddr mem = some other ∧ Tree other root ∧ Plain other root ∧
      RangePlaced root vaddr count (fun _ => 0) mem other ∧ FramesKept mem other root [] := by
  induction count generalizing vaddr mem with
  | zero =>
      exact ⟨mem, rfl, tree, plain, ⟨fun index below => absurd below (Nat.not_lt_zero index), fun _ _ _ => rfl⟩,
        ⟨fun _ _ fresh => fresh, fun _ _ _ _ => rfl⟩⟩
  | succ count ih =>
      have vaddrOutside := outside 0 (Nat.succ_pos count)
      rw [page_of_zero] at vaddrOutside
      cases ptblOn : ptblOf mem root vaddr with
      | none =>
          have unmapped : ∀ index < count + 1, mapping mem root (pageOf vaddr index) = none := by
            intro index below
            by_contra mapped
            exact condition index below mapped 0 (Nat.zero_le index) (by rwa [page_of_zero])
          have checked := check_missing mem root vaddr tree.recursive (plain_missing mem root vaddr plain vaddrOutside ptblOn)
          exact ⟨mem, unmap_stuck mem root vaddr (count + 1) checked, tree, plain, ⟨unmapped, fun _ _ _ => rfl⟩,
            ⟨fun _ _ fresh => fresh, fun _ _ _ _ => rfl⟩⟩
      | some ptbl =>
          have on := (ptbl_on_path mem root vaddr).symm.trans ptblOn
          obtain ⟨first, stored, placed⟩ := entry_placed mem root vaddr ptbl 0 tree vaddrOutside on
          obtain ⟨other, done, otherTree, otherPlain, range, kept⟩ := ih (vaddr + 0x1000) first placed.tree (placed.plain plain)
            (Nat.le_of_succ_le fits) (range_outside_next vaddr count outside) (by
              intro index below mapped before earlier
              rw [placed.others _ (next_page_apart vaddr count index below fits), page_of_next] at mapped
              rw [ptbl_on_path, placed.tables _ 3 (Nat.le_refl 3), ← ptbl_on_path, page_of_next]
              exact condition (index + 1) (Nat.succ_lt_succ below) mapped (before + 1) (Nat.succ_le_succ earlier))
          refine ⟨other, ?_, otherTree, otherPlain, ?_, frames_kept_trans mem first other root [] [] (List.nil_subset _) placed.frames kept⟩
          · rw [unmapPages, check_there mem root vaddr tree.recursive ptbl ptblOn, Option.bind_some, Bool.not_true,
              if_neg Bool.false_ne_true, stored, Option.bind_some]
            exact done
          · exact range_placed_cons root vaddr count (fun _ => 0) mem first other fits outside placed.here
              (fun user _ apart => placed.others user apart) range

end Kraftwerk.Paging
