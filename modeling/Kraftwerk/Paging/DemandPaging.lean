import Kraftwerk.Lib.Runs
import Kraftwerk.Paging.CreateTables

set_option autoImplicit false

-- Runs of paging::handle_pagefault, for faults on pages that are present and on pages that are not.
namespace Kraftwerk.Paging

open Runs

-- The walk of the address ends in an entry that is not present.
def NotPresent (mem : Memory) (root vaddr : Addr) : Prop :=
  ∃ level ≤ 3, ∃ entry, levelEntry mem root vaddr level = some entry ∧ present (mem entry) = false

theorem not_present_walk (mem : Memory) (root vaddr : Addr) (notPresent : NotPresent mem root vaddr) : walk mem root vaddr = none := by
  obtain ⟨level, low, entry, here, absent⟩ := notPresent
  exact walk_absent mem root vaddr level entry low here absent

theorem made_refl (machine : Machine) (root vaddr : Addr) (level : Nat) (recursive : tableAt machine.mem root 510 = some root)
    (fresh : FreshFrames machine.mem root machine.frames)
    (table : ∃ table, tableOn machine.mem root (pathTo vaddr level) = some table) : Made machine machine root vaddr level where
  recursive := recursive
  table := table
  walks := fun _ _ => rfl
  mapped := fun _ _ same => same
  tree := fun same => same
  fresh := fresh
  frames := List.suffix_refl machine.frames
  clear := fun _ _ same => same

theorem unmapped_entry (mem : Memory) (root vaddr ptbl : Addr) (on : tableOn mem root (pathTo vaddr 3) = some ptbl)
    (unmapped : walk mem root vaddr = none) : present (mem (entryAddr ptbl (walkIndex vaddr 12))) = false := by
  by_contra there
  rw [Bool.not_eq_false] at there
  rw [walk, ptbl_on_path, on] at unmapped
  dsimp only at unmapped
  rw [pageAt, if_pos there] at unmapped
  cases unmapped

-- The handler finds the tables of the address or makes them.
theorem tables_found_or_made (machine : Machine) (root vaddr : Addr) (tree : Tree machine.mem root) (outside : OutsideSlot vaddr)
    (fresh : FreshFrames machine.mem root machine.frames) (clear : ∀ page ∈ machine.frames, Clear machine.mem page)
    (enough : 3 ≤ machine.frames.length) (notPresent : NotPresent machine.mem root vaddr) :
    ∃ there after, memCheckPagetable root vaddr machine.mem = some there ∧
      (if !there then memCreatePagetable root vaddr machine else some machine) = some after ∧ Made machine after root vaddr 3 := by
  obtain ⟨level, low, entry, here, absent⟩ := notPresent
  by_cases missing : level ≤ 2
  · have checked := check_absent machine.mem root vaddr tree.recursive level entry missing here absent
    obtain ⟨after, created, made⟩ := create_from_missing machine root vaddr level
      ⟨tree.recursive, outside, missing, ⟨entry, here, absent⟩, tree_own_at machine.mem root vaddr level tree outside low, fresh,
        by omega, fun page member => clear page (List.mem_of_mem_take member)⟩
    exact ⟨false, after, checked, created, made⟩
  · obtain rfl : level = 3 := by omega
    obtain ⟨ptbl, on, _⟩ := Option.map_eq_some_iff.mp here
    have checked := check_there machine.mem root vaddr tree.recursive ptbl ((ptbl_on_path machine.mem root vaddr).trans on)
    exact ⟨true, machine, checked, rfl, made_refl machine root vaddr 3 tree.recursive fresh ⟨ptbl, on⟩⟩

-- The frame that the page of an address is mapped to.
def targetOf (mem : Memory) (root vaddr : Addr) : Option Addr := (walk mem root vaddr).map frame

theorem offset_apart (offset : Addr) (small : offset.toNat < 2 ^ 12) : offset &&& 0x000FFFFFFFFFF000 = 0 := by
  apply BitVec.eq_of_getLsbD_eq
  intro index inside
  rw [BitVec.getLsbD_and]
  by_cases low : index < 12
  · have none : (0x000FFFFFFFFFF000 : BitVec 64).getLsbD index = false := by
      revert index
      decide
    rw [none, Bool.and_false]
    exact BitVec.getLsbD_zero.symm
  · rw [low_bit offset small index (Nat.le_of_not_lt low), Bool.false_and]
    exact BitVec.getLsbD_zero.symm

theorem frame_of_sum (page offset : Addr) (whole : frame page = page) (small : offset.toNat < 2 ^ 12) :
    frame (page + offset) = page := by
  have low := offset_apart offset small
  have apart : page &&& offset = 0 := by
    rw [← whole, frame, BitVec.and_assoc, BitVec.and_comm _ offset, low]
    exact BitVec.and_zero
  rw [BitVec.add_eq_or_of_and_eq_zero page offset apart]
  exact joined_frame page offset whole low

-- The entry of a page that was not present is written.
structure PageWritten (mem other : Memory) (root vaddr page : Addr) : Prop where
  tree : Tree other root
  target : targetOf other root vaddr = some page
  mapped : ∀ user address, walk mem root user = some address → walk other root user = some address
  others : ∀ user, ¬ SamePage user vaddr → walk other root user = walk mem root user
  fresh : ∀ frames, FreshFrames mem root frames → FreshFrames other root frames
  clear : ∀ page, FreshFrame mem root page → Clear mem page → Clear other page

theorem absent_page_written (mem : Memory) (root vaddr ptbl page : Addr) (tree : Tree mem root) (outside : OutsideSlot vaddr)
    (on : tableOn mem root (pathTo vaddr 3) = some ptbl) (unmapped : walk mem root vaddr = none) (whole : frame page = page) :
    ∃ other, storeEntry root vaddr mem ((page &&& ~~~0xFFF) ||| 0x1) = some other ∧ PageWritten mem other root vaddr page := by
  have here := level_entry_on mem root vaddr 3 ptbl on
  have absent := unmapped_entry mem root vaddr ptbl on unmapped
  have kept := page_write_kept mem root vaddr _ ((page &&& ~~~0xFFF) ||| 0x1) tree outside here
  have elsewhere := page_write_elsewhere mem root vaddr _ ((page &&& ~~~0xFFF) ||| 0x1) tree outside here
  obtain ⟨there, target⟩ := demand_entry page whole
  refine ⟨_, store_entry_here mem root vaddr tree.recursive _ ((ptbl_entry_level mem root vaddr).trans here) _,
    tree_kept mem _ root tree kept, ?_, fun user address => mapped_walk_kept mem root user _ address _ absent,
    fun user apart => same_walk mem _ root user (elsewhere user apart), ?_, ?_⟩
  · have ptblOn := tables_kept_on mem _ root tree.recursive kept (pathTo vaddr 3) (path_to_length vaddr 3).le
    rw [targetOf, walk, ptbl_on_path, ptblOn, on]
    dsimp only
    rw [pageAt, Function.update_self, if_pos there, target, Option.map_some, Option.map_some,
      frame_of_sum page _ whole (flags_small vaddr)]
  · intro frames fresh
    refine ⟨fun other member => ⟨(fresh.fresh other member).whole, fun user level userOutside low => ?_⟩, fresh.distinct⟩
    rw [tables_kept_on mem _ root tree.recursive kept _ ((path_to_length user level).trans_le low)]
    exact (fresh.fresh other member).unused user level userOutside low
  · intro other fresh clear index
    rw [write_elsewhere mem _ _ _ (fresh_entry_apart mem root other vaddr _ 3 index tree.recursive fresh outside (Nat.le_refl 3) here)]
    exact clear index

-- The state that the handler keeps: a tree, frames that nothing uses, and no fault on the way.
structure Serving (root : Addr) (pager : Pager) : Prop where
  tree : Tree pager.mem root
  fresh : FreshFrames pager.mem root pager.frames
  clear : ∀ page ∈ pager.frames, Clear pager.mem page
  idle : pager.pfaulting = false

structure Served (root vaddr : Addr) (pager after : Pager) (page : Addr) : Prop where
  serving : Serving root after
  target : targetOf after.mem root vaddr = some page
  mapped : ∀ user address, walk pager.mem root user = some address → walk after.mem root user = some address
  others : ∀ user, OutsideSlot user → ¬ SamePage user vaddr → walk after.mem root user = walk pager.mem root user
  frames : (page :: after.frames).Sublist pager.frames

-- The first frame goes to the page, the next ones to the tables that are missing.
theorem fault_served (root vaddr : Addr) (errcode : BitVec 64) (pager : Pager) (serving : Serving root pager)
    (low : ¬ vaddr < 0x1000) (outside : OutsideSlot vaddr) (notPresent : NotPresent pager.mem root vaddr)
    (enough : 4 ≤ pager.frames.length) :
    ∃ after page, handlePagefault root errcode vaddr pager = some after ∧ Served root vaddr pager after page := by
  obtain ⟨⟨mem, frames⟩, pfaulting⟩ := pager
  obtain ⟨tree, fresh, clear, idle⟩ := serving
  dsimp only at tree fresh clear idle notPresent enough
  cases frames with
  | nil => exact absurd enough (by decide)
  | cons page rest =>
      obtain ⟨absentRest, distinct⟩ := List.nodup_cons.mp fresh.distinct
      have restFresh : FreshFrames mem root rest :=
        ⟨fun other member => fresh.fresh other (List.mem_cons_of_mem page member), distinct⟩
      have whole := (fresh.fresh page List.mem_cons_self).whole
      obtain ⟨there, made, checked, found, tables⟩ := tables_found_or_made ⟨mem, rest⟩ root vaddr tree outside restFresh
        (fun other member => clear other (List.mem_cons_of_mem page member)) (Nat.le_of_succ_le_succ enough) notPresent
      obtain ⟨ptbl, on⟩ := tables.table
      have unmapped := (tables.walks vaddr outside).trans (not_present_walk mem root vaddr notPresent)
      obtain ⟨other, stored, written⟩ := absent_page_written made.mem root vaddr ptbl page (tables.tree tree) outside on unmapped whole
      refine ⟨⟨⟨other, made.frames⟩, false⟩, page, ?_, ?_⟩
      · rw [handlePagefault, idle, if_neg Bool.false_ne_true, if_neg low, allocate]
        dsimp only
        rw [Option.bind_some, checked, Option.bind_some, found, Option.bind_some, stored]
        rfl
      · refine ⟨⟨written.tree, written.fresh made.frames tables.fresh, fun user member => ?_, rfl⟩, written.target, ?_, ?_, ?_⟩
        · exact written.clear user (tables.fresh.fresh user member)
            (tables.clear user member (clear user (List.mem_cons_of_mem page (tables.frames.subset member))))
        · exact fun user address before => written.mapped user address (tables.mapped user address before)
        · exact fun user userOutside apart => (written.others user apart).trans (tables.walks user userOutside)
        · exact tables.frames.sublist.cons_cons page

structure Fault where
  errcode : BitVec 64
  faultAddr : Addr

-- The pager, with the frame that each call so far has mapped its page to.
structure FaultState where
  pager : Pager
  targets : List (Addr × Addr)

def recordTarget (vaddr : Addr) (target : Option Addr) (targets : List (Addr × Addr)) : List (Addr × Addr) :=
  match target with
  | some page => (vaddr, page) :: targets
  | none => targets

def faultStep (root : Addr) (state : FaultState) (fault : Fault) : Option FaultState :=
  (handlePagefault root fault.errcode fault.faultAddr state.pager).map fun pager =>
    ⟨pager, recordTarget fault.faultAddr (targetOf pager.mem root fault.faultAddr) state.targets⟩

-- What the handler owes its callers in each state: the pages of the run are mapped to one frame each.
structure OneTarget (root : Addr) (state : FaultState) : Prop where
  idle : state.pager.pfaulting = false
  current : ∀ entry ∈ state.targets, targetOf state.pager.mem root entry.1 = some entry.2
  distinct : state.targets.Pairwise fun entry other => entry.2 ≠ other.2

-- And in each call: nothing but a page that was not present gets another translation.
def FaultKeeps (root : Addr) (state : FaultState) (fault : Fault) : Prop :=
  ∃ next, faultStep root state fault = some next ∧ next.pager.pfaulting = false ∧
    (∀ page address, walk state.pager.mem root page = some address → walk next.pager.mem root page = some address) ∧
    ∀ page, OutsideSlot page → walk next.pager.mem root page ≠ walk state.pager.mem root page → SamePage page fault.faultAddr

-- A fault on a page that is not present, with frames for the page and for three tables.
structure Demanded (root : Addr) (state : FaultState) (fault : Fault) : Prop where
  notNull : ¬ fault.faultAddr < 0x1000
  outside : OutsideSlot fault.faultAddr
  notPresent : NotPresent state.pager.mem root fault.faultAddr
  enough : 4 ≤ state.pager.frames.length

structure FaultRun (root : Addr) (state : FaultState) : Prop where
  serving : Serving root state.pager
  targets : OneTarget root state
  taken : ∀ entry ∈ state.targets, entry.2 ∉ state.pager.frames

theorem demanded_served (root : Addr) (state : FaultState) (fault : Fault) (run : FaultRun root state)
    (demanded : Demanded root state fault) :
    ∃ after page, faultStep root state fault = some ⟨after, (fault.faultAddr, page) :: state.targets⟩ ∧
      Served root fault.faultAddr state.pager after page := by
  obtain ⟨after, page, handled, served⟩ := fault_served root fault.faultAddr fault.errcode state.pager run.serving demanded.notNull
    demanded.outside demanded.notPresent demanded.enough
  refine ⟨after, page, ?_, served⟩
  rw [faultStep, handled, Option.map_some, served.target]
  rfl

theorem demanded_keeps (root : Addr) (state : FaultState) (fault : Fault) (run : FaultRun root state)
    (demanded : Demanded root state fault) : FaultKeeps root state fault := by
  obtain ⟨after, page, stepped, served⟩ := demanded_served root state fault run demanded
  refine ⟨_, stepped, served.serving.idle, served.mapped, fun user outside changed => ?_⟩
  by_contra apart
  exact changed (served.others user outside apart)

theorem fault_run_step (root : Addr) (state : FaultState) (fault : Fault) (run : FaultRun root state)
    (demanded : Demanded root state fault) : ∃ next, faultStep root state fault = some next ∧ FaultRun root next := by
  obtain ⟨after, page, stepped, served⟩ := demanded_served root state fault run demanded
  have fresh := served.frames.nodup run.serving.fresh.distinct
  have member : page ∈ state.pager.frames := served.frames.subset List.mem_cons_self
  refine ⟨_, stepped, served.serving, ⟨served.serving.idle, ?_, ?_⟩, ?_⟩
  · intro entry entryMember
    rcases List.mem_cons.mp entryMember with rfl | before
    · exact served.target
    · obtain ⟨address, walked, same⟩ := Option.map_eq_some_iff.mp (run.targets.current entry before)
      rw [targetOf, served.mapped entry.1 address walked, Option.map_some, same]
  · refine List.pairwise_cons.mpr ⟨fun entry before same => ?_, run.targets.distinct⟩
    exact run.taken entry before (same ▸ member)
  · intro entry entryMember again
    rcases List.mem_cons.mp entryMember with rfl | before
    · exact (List.nodup_cons.mp fresh).1 again
    · exact run.taken entry before (served.frames.subset (List.mem_cons_of_mem page again))

theorem demand_paging_keeps (root : Addr) (pager : Pager) (faults : List Fault) (serving : Serving root pager)
    (along : Along (faultStep root) (Demanded root) ⟨pager, []⟩ faults) :
    Visits (faultStep root) (OneTarget root) ⟨pager, []⟩ faults ∧ Along (faultStep root) (FaultKeeps root) ⟨pager, []⟩ faults := by
  have initial : FaultRun root ⟨pager, []⟩ :=
    ⟨serving, ⟨serving.idle, fun _ member => absurd member List.not_mem_nil, List.Pairwise.nil⟩,
      fun _ member => absurd member List.not_mem_nil⟩
  constructor
  · exact visits_mono (faultStep root) (FaultRun root) (OneTarget root) _ faults (fun _ run => run.targets)
      (visits_of_along (faultStep root) (Demanded root) (FaultRun root) (fault_run_step root) _ faults initial along)
  · refine along_of_invariant (faultStep root) (Demanded root) (FaultKeeps root) (FaultRun root) ?_ (demanded_keeps root) _ faults
      initial along
    intro state fault next run demanded stepped
    obtain ⟨after, done, kept⟩ := fault_run_step root state fault run demanded
    obtain rfl := Option.some.inj (done.symm.trans stepped)
    exact kept

def holedFrames : List Addr := [0x5000, 0x6000, 0x7000, 0x8000, 0x9000, 0xA000]

theorem holed_frames_clear (page : Addr) (listed : page ∈ holedFrames) : Clear holedTables page := by
  simp only [holedFrames, List.mem_cons, List.not_mem_nil, or_false] at listed
  rcases listed with rfl | rfl | rfl | rfl | rfl | rfl <;> unfold Clear <;> decide +kernel

theorem holed_tables_serving (frames : List Addr) (known : ∀ page ∈ frames, page ∈ holedFrames) (distinct : frames.Nodup) :
    Serving 0x1000 ⟨⟨holedTables, frames⟩, false⟩ where
  tree := holed_tables_tree
  fresh := by
    refine ⟨fun page member => ?_, distinct⟩
    have listed := known page member
    simp only [holedFrames, List.mem_cons, List.not_mem_nil, or_false] at listed
    rcases listed with rfl | rfl | rfl | rfl | rfl | rfl <;> exact holed_fresh_frame _ (by decide) (by decide)
  clear := fun page member => holed_frames_clear page (known page member)
  idle := rfl

-- The second fault finds the table of the first one.
def holeFaults : List Fault := [⟨2, 0x1FF123⟩, ⟨0, 0x1FE000⟩]

def holeFilled : Option FaultState := faultStep 0x1000 ⟨⟨⟨holedTables, holedFrames⟩, false⟩, []⟩ ⟨2, 0x1FF123⟩

theorem hole_filled_once : holeFilled.isSome := by decide +kernel

theorem holes_demanded : Along (faultStep 0x1000) (Demanded 0x1000) ⟨⟨⟨holedTables, holedFrames⟩, false⟩, []⟩ holeFaults := by
  refine (along_cons _ _ _ _ _ _ (Option.some_get hole_filled_once).symm).mpr
    ⟨⟨by decide, by decide, ⟨2, by decide, 0x3000, by decide, by decide⟩, by decide⟩, ?_⟩
  exact ⟨⟨by decide, by decide, ⟨3, by decide, 0x6FF0, by decide +kernel, by decide +kernel⟩, by decide +kernel⟩, fun _ _ => trivial⟩

theorem holes_paged_in :
    Visits (faultStep 0x1000) (OneTarget 0x1000) ⟨⟨⟨holedTables, holedFrames⟩, false⟩, []⟩ holeFaults ∧
      Along (faultStep 0x1000) (FaultKeeps 0x1000) ⟨⟨⟨holedTables, holedFrames⟩, false⟩, []⟩ holeFaults :=
  demand_paging_keeps 0x1000 _ holeFaults (holed_tables_serving holedFrames (fun _ member => member) (by decide)) holes_demanded

-- A write to the present page at 0x200000 faults with code 3, and the handler maps another frame there.
theorem present_page_replaced :
    Serving 0x1000 ⟨⟨holedTables, [0x5000, 0x6000, 0x7000, 0x8000]⟩, false⟩ ∧ walk holedTables 0x1000 0x200000 = some 0x300000 ∧
      handlePagefault 0x1000 3 0x200000 ⟨⟨holedTables, [0x5000, 0x6000, 0x7000, 0x8000]⟩, false⟩ =
        some ⟨⟨Function.update holedTables 0x4000 0x5001, [0x6000, 0x7000, 0x8000]⟩, false⟩ ∧
      walk (Function.update holedTables 0x4000 0x5001) 0x1000 0x200000 = some 0x5000 ∧
      ¬ FaultKeeps 0x1000 ⟨⟨⟨holedTables, [0x5000, 0x6000, 0x7000, 0x8000]⟩, false⟩, []⟩ ⟨3, 0x200000⟩ := by
  have before : walk holedTables 0x1000 0x200000 = some 0x300000 := by decide
  have after : walk (Function.update holedTables 0x4000 0x5001) 0x1000 0x200000 = some 0x5000 := by decide
  have stored : storeEntry 0x1000 0x200000 holedTables 0x5001 = some (Function.update holedTables 0x4000 0x5001) :=
    store_entry_here holedTables 0x1000 0x200000 (by decide) 0x4000 (by decide) 0x5001
  have handled : handlePagefault 0x1000 3 0x200000 ⟨⟨holedTables, [0x5000, 0x6000, 0x7000, 0x8000]⟩, false⟩ =
      some ⟨⟨Function.update holedTables 0x4000 0x5001, [0x6000, 0x7000, 0x8000]⟩, false⟩ := by
    have checked : memCheckPagetable 0x1000 0x200000 holedTables = some true := by decide
    rw [handlePagefault, if_neg Bool.false_ne_true, if_neg (by decide), allocate]
    dsimp only
    rw [Option.bind_some, checked, Option.bind_some, Bool.not_true, if_neg Bool.false_ne_true, Option.bind_some]
    exact congrArg _ stored
  refine ⟨holed_tables_serving _ (by simp [holedFrames]) (by decide), before, handled, after, ?_⟩
  rintro ⟨next, stepped, _, mapped, _⟩
  obtain ⟨pager, done, rfl⟩ := Option.map_eq_some_iff.mp stepped
  obtain rfl := Option.some.inj (handled.symm.trans done)
  have kept := mapped 0x200000 0x300000 before
  rw [after] at kept
  exact absurd kept (by decide)

end Kraftwerk.Paging
