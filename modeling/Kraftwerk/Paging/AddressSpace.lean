import Kraftwerk.Lib.Simulation
import Kraftwerk.Paging.FramedPager

set_option autoImplicit false

-- Runs of the pager beside the other holders of page frames, and the address space that they are an implementation of.
namespace Kraftwerk.Paging

open Cover Runs Simulation

-- The pager, what other code has got from physical_memory::allocate, and the frame that each fault so far has mapped its
-- page to.
structure System extends FramedPager where
  outstanding : List Pmem.Allocation
  targets : List (Addr × Addr)

inductive SystemCall where
  | fault (errcode faultAddr : BitVec 64)
  | mapRange (vaddr paddr : Addr) (nPages : BitVec 32) (flags : PageFlags)
  | unmapRange (vaddr : Addr) (nPages : BitVec 32)
  | allocate (nPages : Nat)
  | free (start : Addr) (nPages : Nat)
  | write (page : Addr) (index : BitVec 9) (value : BitVec 64)

def System.pmem (system : System) : Pmem.State := ⟨system.lists, system.outstanding⟩

-- A write is one of the code that a page frame was handed out to.
def systemStep (root : Addr) (system : System) : SystemCall → Option System
  | .fault errcode faultAddr =>
      (framedHandlePagefault root errcode faultAddr system.toFramedPager).map fun pager =>
        ⟨pager, system.outstanding, recordTarget faultAddr (targetOf pager.mem root faultAddr) system.targets⟩
  | .mapRange vaddr paddr nPages flags =>
      (framedMapRange root vaddr paddr nPages flags system.toFramedMemory).map fun framed =>
        { system with toFramedMemory := framed }
  | .unmapRange vaddr nPages => (unmapRange root vaddr nPages system.mem).map fun mem => { system with mem := mem }
  | .allocate nPages =>
      (Pmem.step system.pmem (.allocate nPages)).map fun state =>
        { system with lists := state.lists, outstanding := state.outstanding }
  | .free start nPages =>
      (Pmem.step system.pmem (.free start nPages)).map fun state =>
        { system with lists := state.lists, outstanding := state.outstanding }
  | .write page index value => some { system with mem := Function.update system.mem (entryAddr page index) value }

-- Every frame that the free lists will give, in that order.
def AllFrames (lists : Pmem.FreeLists) (frames : List Addr) : Prop := Pmem.AllListed Pmem.Aligned lists ∧ Pmem.Drains lists frames

theorem all_frames_answers : Answers AllFrames := by
  rintro lists page rest ⟨aligned, next, taken, later⟩
  exact ⟨next, taken, (Pmem.allocate_all Pmem.Aligned Pmem.aligned_split_closed 1 lists next page Pmem.single_frame_fits aligned taken).1,
    later⟩

-- What is not on the free lists and in no table: the frames of other code and of the pages that faults have mapped.
def ownedBlocks (system : System) : List Pmem.Block :=
  Pmem.handedOut system.pmem ++ Pmem.level 0 (system.targets.map Prod.snd)

def framesIn (block : Pmem.Block) : Set Addr := {page | Pmem.Aligned (0, page) ∧ page.toNat ∈ Pmem.bytes block}

def Held (system : System) (page : Addr) : Prop := Pmem.Aligned (0, page) ∧ 0 < cover Pmem.bytes (ownedBlocks system) page.toNat

-- What the callers owe. Nothing clears a frame that becomes a page table, so a frame that is given back has to read as one
-- without present entries.
def Owed (root : Addr) (system : System) : SystemCall → Prop
  | .fault _ faultAddr =>
      ¬ faultAddr < 0x1000 ∧ OutsideSlot faultAddr ∧ mapping system.mem root faultAddr = none ∧ 4 ≤ Pmem.frameCount system.lists
  | .mapRange vaddr _ nPages _ =>
      (∀ index < nPages.toNat, OutsideSlot (pageOf vaddr index)) ∧ 3 * nPages.toNat ≤ Pmem.frameCount system.lists
  | .unmapRange vaddr nPages =>
      (∀ index < nPages.toNat, OutsideSlot (pageOf vaddr index)) ∧ UnmapCondition system.mem root vaddr nPages.toNat
  | .allocate nPages => Pmem.Allowed system.pmem (.allocate nPages)
  | .free start nPages =>
      Pmem.Allowed system.pmem (.free start nPages) ∧ Pmem.TopMergeAtLowerHalf system.pmem (.free start nPages) ∧
        ∀ page ∈ framesIn (Pmem.getAllocOrder nPages, start), Clear system.mem page
  | .write page _ _ => Held system page

-- The free lists as they were at the start: what they held is memory that an entry can lead to, each byte of it once.
structure Supply (initial : Pmem.FreeLists) : Prop where
  once : ∀ byte, Pmem.freeCover initial byte ≤ 1
  small : ∀ byte, 0 < Pmem.freeCover initial byte → byte < 2 ^ 52

structure Sound (root : Addr) (initial : Pmem.FreeLists) (system : System) : Prop where
  idle : system.pfaulting = false
  tree : Tree system.mem root
  plain : Plain system.mem root
  aligned : Pmem.AllListed Pmem.Aligned system.lists
  taken : ∀ allocation ∈ system.outstanding,
    allocation.nPages ≤ 2 ^ Pmem.allocMaxOrder ∧ Pmem.Aligned (Pmem.allocationBlock allocation)
  conserved : ∀ byte, Pmem.freeCover system.lists byte + cover Pmem.bytes (ownedBlocks system) byte ≤ Pmem.freeCover initial byte
  free : ∀ page, Pmem.FreeFrame system.lists page → FreshFrame system.mem root page ∧ Clear system.mem page
  held : ∀ page, Held system page → FreshFrame system.mem root page

-- The address space: the present entry of each page, and the page frames that are free.
structure Space where
  mapped : Addr → Option (BitVec 64)
  free : Set Addr

def Space.Placed (before after : Space) (vaddr : Addr) (count : Nat) (value : Nat → BitVec 64) : Prop :=
  (∀ index < count, ∀ user, SamePage user (pageOf vaddr index) → after.mapped user = presentWord (value index)) ∧
    ∀ user, (∀ index < count, ¬ SamePage user (pageOf vaddr index)) → after.mapped user = before.mapped user

-- What the calls are for, whichever frames they take.
def Space.Outcome (before : Space) (call : SystemCall) (after : Space) : Prop :=
  match call with
  | .fault _ faultAddr =>
      ∃ page ∈ before.free, page ∉ after.free ∧ after.free ⊆ before.free ∧ 
        Placed before after faultAddr 1 (fun _ => (page &&& ~~~0xFFF) ||| 0x1)
  | .mapRange vaddr paddr nPages flags =>
      after.free ⊆ before.free ∧
        Placed before after vaddr nPages.toNat (fun index => mappedEntry (flagsToX8664 flags) (pageOf paddr index))
  | .unmapRange vaddr nPages => after.free = before.free ∧ Placed before after vaddr nPages.toNat (fun _ => 0)
  | .allocate nPages =>
      after.mapped = before.mapped ∧
        ∃ start, framesIn (Pmem.getAllocOrder nPages, start) ⊆ before.free ∧
          after.free = before.free \ framesIn (Pmem.getAllocOrder nPages, start)
  | .free start nPages =>
      after.mapped = before.mapped ∧ after.free = before.free ∪ framesIn (Pmem.getAllocOrder nPages, start)
  | .write _ _ _ => after = before

def spaceOf (root : Addr) (system : System) : Space where
  mapped := fun vaddr => if OutsideSlot vaddr then mapping system.mem root vaddr else none
  free := {page | Pmem.FreeFrame system.lists page}

-- No call but a write of its holder changes a word of a frame.
def WordsKept (system next : System) (call : SystemCall) : Prop :=
  ∀ page, Held system page → ∀ index, (∀ value, call ≠ .write page index value) →
    next.mem (entryAddr page index) = system.mem (entryAddr page index)

structure Carried (root : Addr) (initial : Pmem.FreeLists) (system next : System) (call : SystemCall) : Prop where
  sound : Sound root initial next
  outcome : (spaceOf root system).Outcome call (spaceOf root next)
  words : WordsKept system next call

section
variable (root : Addr) (initial : Pmem.FreeLists) (system : System)

theorem not_held_free (supply : Supply initial) (sound : Sound root initial system) (page : Addr)
    (free : Pmem.FreeFrame system.lists page) (held : Held system page) : False := by
  have conserved := sound.conserved page.toNat
  have once := supply.once page.toNat
  have some := free.2
  have taken := held.2
  omega

theorem sound_frames (supply : Supply initial) (sound : Sound root initial system) :
    ∃ frames, Pmem.Drains system.lists frames ∧ frames.length = Pmem.frameCount system.lists ∧
      (∀ page, page ∈ frames ↔ Pmem.FreeFrame system.lists page) ∧ Pageable root ⟨system.mem, frames⟩ ∧
      Follows AllFrames ⟨system.mem, frames⟩ system.toFramedMemory := by
  obtain ⟨frames, drains⟩ := Pmem.drains_exists system.lists
  have member := Pmem.mem_drains system.lists frames sound.aligned drains
  have once : ∀ byte, Pmem.freeCover system.lists byte ≤ 1 := fun byte => by
    have conserved := sound.conserved byte
    have once := supply.once byte
    omega
  refine ⟨frames, drains, Pmem.drains_length system.lists frames drains, member, ⟨sound.tree, sound.plain, ⟨?_, ?_⟩, ?_⟩,
    rfl, sound.aligned, drains⟩
  · exact fun page listed => (sound.free page ((member page).mp listed)).1
  · exact Pmem.drains_nodup system.lists frames sound.aligned drains once
  · exact fun page listed => (sound.free page ((member page).mp listed)).2

theorem space_placed (next : System) (vaddr : Addr) (count : Nat) (value : Nat → BitVec 64)
    (outside : ∀ index < count, OutsideSlot (pageOf vaddr index)) (placed : RangePlaced root vaddr count value system.mem next.mem) :
    (spaceOf root system).Placed (spaceOf root next) vaddr count value := by
  constructor
  · intro index below user same
    have userOutside := same_page_outside user _ same (outside index below)
    rw [spaceOf]
    dsimp only
    rw [if_pos userOutside, same_page_mapping next.mem root _ user same]
    exact placed.range index below
  · intro user apart
    rw [spaceOf, spaceOf]
    dsimp only
    by_cases userOutside : OutsideSlot user
    · rw [if_pos userOutside, if_pos userOutside]
      exact placed.others user userOutside apart
    · rw [if_neg userOutside, if_neg userOutside]

-- The pager has drawn frames and given some of them to pages.
theorem drawn_sound (supply : Supply initial) (sound : Sound root initial system) (frames : List Addr)
    (member : ∀ page, page ∈ frames ↔ Pmem.FreeFrame system.lists page) (drains : Pmem.Drains system.lists frames)
    (machine : Machine) (framed : FramedMemory) (follows : Follows AllFrames machine framed) (pageable : Pageable root machine)
    (kept : FramesKept system.mem machine.mem root frames) (targets : List (Addr × Addr)) (given : List Addr)
    (pages : targets.map Prod.snd = given ++ system.targets.map Prod.snd) (givenFresh : ∀ page ∈ given, FreshFrame machine.mem root page)
    (givenAligned : ∀ page ∈ given, Pmem.Aligned (0, page)) (part : (given ++ machine.frames).Sublist frames) :
    Sound root initial ⟨⟨framed, false⟩, system.outstanding, targets⟩ ∧
      ∀ page, Held system page → ∀ index, framed.mem (entryAddr page index) = system.mem (entryAddr page index) := by
  have apart : ∀ page, Held system page → page ∉ frames := fun page held listed =>
    not_held_free root initial system supply sound page ((member page).mp listed) held
  have owned : ∀ byte, cover Pmem.bytes (ownedBlocks ⟨⟨framed, false⟩, system.outstanding, targets⟩) byte =
      cover Pmem.bytes (ownedBlocks system) byte + cover Pmem.bytes (Pmem.level 0 given) byte := by
    intro byte
    simp only [ownedBlocks, System.pmem, Pmem.handedOut, pages, Pmem.level, List.map_append, cover_append]
    omega
  have sorted : ∀ byte, Pmem.freeCover framed.lists byte + cover Pmem.bytes (Pmem.level 0 given) byte ≤
      Pmem.freeCover system.lists byte := by
    intro byte
    rw [← Pmem.drains_cover system.lists frames sound.aligned drains,
      ← Pmem.drains_cover framed.lists machine.frames follows.frames.1 follows.frames.2, Nat.add_comm, ← cover_append, Pmem.level,
      Pmem.level, ← List.map_append]
    exact (part.map _).countP_le
  have words : ∀ page, Held system page → ∀ index, framed.mem (entryAddr page index) = system.mem (entryAddr page index) :=
    fun page held index => follows.mem ▸ kept.words page (apart page held) (sound.held page held) index
  refine ⟨⟨rfl, follows.mem ▸ pageable.tree, follows.mem ▸ pageable.plain, follows.frames.1, sound.taken, ?_, ?_, ?_⟩, words⟩
  · intro byte
    have before := sound.conserved byte
    have less := sorted byte
    rw [owned]
    dsimp only
    omega
  · intro page free
    have listed := (Pmem.mem_drains framed.lists machine.frames follows.frames.1 follows.frames.2 page).mpr free
    exact ⟨follows.mem ▸ pageable.fresh.fresh page listed, follows.mem ▸ pageable.clear page listed⟩
  · intro page held
    obtain ⟨aligned, covered⟩ := held
    rw [owned] at covered
    show FreshFrame framed.mem root page
    rw [follows.mem]
    by_cases before : 0 < cover Pmem.bytes (ownedBlocks system) page.toNat
    · exact kept.unused page (apart page ⟨aligned, before⟩) (sound.held page ⟨aligned, before⟩)
    · obtain ⟨block, blockMember, inside⟩ := (cover_pos_iff Pmem.bytes (Pmem.level 0 given) page.toNat).mp (by omega)
      obtain ⟨other, otherMember, rfl⟩ := List.mem_map.mp blockMember
      rw [Pmem.frame_bytes_unique page other aligned (givenAligned other otherMember) inside]
      exact givenFresh other otherMember

theorem space_free (page : Addr) (framed : FramedMemory) (machine : Machine) (follows : Follows AllFrames machine framed) (pfaulting : Bool)
    (outstanding : List Pmem.Allocation) (targets : List (Addr × Addr)) :
    page ∈ (spaceOf root ⟨⟨framed, pfaulting⟩, outstanding, targets⟩).free ↔ page ∈ machine.frames :=
  (Pmem.mem_drains framed.lists machine.frames follows.frames.1 follows.frames.2 page).symm

theorem fault_target (mem : Memory) (vaddr page : Addr) (plain : Plain mem root) (outside : OutsideSlot vaddr)
    (whole : frame page = page) (here : mapping mem root vaddr = presentWord ((page &&& ~~~0xFFF) ||| 0x1)) :
    targetOf mem root vaddr = some page := by
  obtain ⟨there, target⟩ := demand_entry page whole
  rw [presentWord, if_pos there] at here
  rw [targetOf, walk_mapping mem root vaddr plain outside, here, Option.map_some, Option.map_some, target,
    frame_of_sum page _ whole (flags_small vaddr)]

theorem fault_carried (supply : Supply initial) (sound : Sound root initial system) (errcode faultAddr : BitVec 64)
    (owed : Owed root system (.fault errcode faultAddr)) :
    ∃ next, systemStep root system (.fault errcode faultAddr) = some next ∧
      Carried root initial system next (.fault errcode faultAddr) := by
  obtain ⟨notNull, outside, _, enough⟩ := owed
  obtain ⟨frames, drains, length, member, pageable, follows⟩ := sound_frames root initial system supply sound
  cases frames with
  | nil => exact absurd enough (by rw [← length]; decide)
  | cons page rest =>
      rw [← length, List.length_cons] at enough
      obtain ⟨after, handled, idle, placed⟩ := fault_placed root faultAddr errcode ⟨⟨system.mem, page :: rest⟩, false⟩ page rest
        (pageable_rest root system.mem page rest pageable) rfl rfl notNull outside (Nat.le_of_succ_le_succ enough)
      obtain ⟨⟨framed, pfaulting⟩, framedHandled, framedFollows, framedIdle⟩ :=
        handle_pagefault_simulated AllFrames all_frames_answers root errcode faultAddr _ after
          system.toFramedPager follows sound.idle handled
      obtain rfl : pfaulting = false := framedIdle.trans idle
      dsimp only at framedFollows
      obtain ⟨absentRest, _⟩ := List.nodup_cons.mp pageable.fresh.distinct
      have fresh := pageable.fresh.fresh page List.mem_cons_self
      have pageFree := (member page).mp List.mem_cons_self
      have drawn : (page :: after.frames).Sublist (page :: rest) := placed.frames.sublist.cons_cons page
      have target : targetOf framed.mem root faultAddr = some page := by
        rw [framedFollows.mem]
        exact fault_target root after.mem faultAddr page placed.pageable.plain outside fresh.whole placed.here
      have kept : FramesKept system.mem after.mem root (page :: rest) :=
        ⟨fun other absent => placed.kept.unused other (fun inside => absent (List.mem_cons_of_mem page inside)),
          fun other absent => placed.kept.words other (fun inside => absent (List.mem_cons_of_mem page inside))⟩
      obtain ⟨soundNext, words⟩ := drawn_sound root initial system supply sound (page :: rest) member drains after.toMachine
        framed framedFollows placed.pageable kept ((faultAddr, page) :: system.targets) [page] rfl
        (fun other inside => List.mem_singleton.mp inside ▸ placed.kept.unused page absentRest fresh)
        (fun other inside => List.mem_singleton.mp inside ▸ pageFree.1) drawn
      have onePage : RangePlaced root faultAddr 1 (fun _ => (page &&& ~~~0xFFF) ||| 0x1) system.mem framed.mem := by
        rw [framedFollows.mem]
        refine ⟨fun index below => ?_, fun user userOutside apart => placed.others user userOutside ?_⟩
        · obtain rfl : index = 0 := by omega
          rw [page_of_zero]
          exact placed.here
        · have first := apart 0 Nat.one_pos
          rwa [page_of_zero] at first
      refine ⟨⟨⟨framed, false⟩, system.outstanding, (faultAddr, page) :: system.targets⟩, ?_, soundNext, ?_,
        fun other held index _ => words other held index⟩
      · rw [systemStep, framedHandled, Option.map_some]
        dsimp only
        rw [target]
        rfl
      · have freeAfter := fun other => space_free root other framed after.toMachine framedFollows false system.outstanding
          ((faultAddr, page) :: system.targets)
        refine ⟨page, pageFree, fun again => ?_, fun other inside => ?_, ?_⟩
        · exact absentRest (placed.frames.subset ((freeAfter page).mp again))
        · exact (member other).mp (List.mem_cons_of_mem page (placed.frames.subset ((freeAfter other).mp inside)))
        · refine space_placed root system _ faultAddr 1 _ (fun index below => ?_) onePage
          obtain rfl : index = 0 := by omega
          rwa [page_of_zero]

theorem map_range_carried (supply : Supply initial) (sound : Sound root initial system) (vaddr paddr : Addr) (nPages : BitVec 32)
    (flags : PageFlags) (owed : Owed root system (.mapRange vaddr paddr nPages flags)) :
    ∃ next, systemStep root system (.mapRange vaddr paddr nPages flags) = some next ∧
      Carried root initial system next (.mapRange vaddr paddr nPages flags) := by
  obtain ⟨outside, enough⟩ := owed
  obtain ⟨frames, drains, length, member, pageable, follows⟩ := sound_frames root initial system supply sound
  obtain ⟨after, mapped, afterPageable, suffix, _, range, kept⟩ := map_pages_placed root (flagsToX8664 flags) nPages.toNat vaddr paddr
    ⟨system.mem, frames⟩ pageable (Nat.le_of_lt nPages.isLt) outside (by rw [length]; exact enough)
  obtain ⟨framed, framedMapped, framedFollows⟩ :=
    map_pages_simulated AllFrames all_frames_answers root (flagsToX8664 flags) nPages.toNat vaddr paddr
    ⟨system.mem, frames⟩ system.toFramedMemory follows after mapped
  obtain ⟨soundNext, words⟩ := drawn_sound root initial system supply sound frames member drains after framed framedFollows afterPageable
    kept system.targets [] rfl (fun _ none => absurd none List.not_mem_nil) (fun _ none => absurd none List.not_mem_nil)
    suffix.sublist
  refine ⟨⟨⟨framed, false⟩, system.outstanding, system.targets⟩, ?_, soundNext, ⟨?_, ?_⟩, fun page held index _ => words page held index⟩
  · rw [systemStep, framedMapRange, framedMapped, Option.map_some, ← sound.idle]
  · exact fun page inside => (member page).mp (suffix.subset
      ((space_free root page framed after framedFollows false system.outstanding system.targets).mp inside))
  · refine space_placed root system _ vaddr nPages.toNat _ outside ?_
    rw [framedFollows.mem]
    exact range

theorem unmap_range_carried (supply : Supply initial) (sound : Sound root initial system) (vaddr : Addr) (nPages : BitVec 32)
    (owed : Owed root system (.unmapRange vaddr nPages)) :
    ∃ next, systemStep root system (.unmapRange vaddr nPages) = some next ∧ Carried root initial system next (.unmapRange vaddr nPages) := by
  obtain ⟨outside, condition⟩ := owed
  obtain ⟨frames, drains, _, member, pageable, follows⟩ := sound_frames root initial system supply sound
  obtain ⟨other, unmapped, tree, plain, range, kept⟩ := unmap_pages_placed root nPages.toNat vaddr system.mem sound.tree sound.plain
    (Nat.le_of_lt nPages.isLt) outside (by
      intro index below mapped
      refine condition index below ?_
      rw [walk_mapping system.mem root _ sound.plain (outside index below)]
      exact fun none => mapped (Option.map_eq_none_iff.mp none))
  have afterPageable : Pageable root ⟨other, frames⟩ :=
    ⟨tree, plain, ⟨fun page listed => kept.unused page List.not_mem_nil (pageable.fresh.fresh page listed), pageable.fresh.distinct⟩,
      fun page listed index => by
        dsimp only at listed ⊢
        rw [kept.words page List.not_mem_nil (pageable.fresh.fresh page listed) index]
        exact pageable.clear page listed index⟩
  have keptAll : FramesKept system.mem other root frames :=
    ⟨fun page _ => kept.unused page List.not_mem_nil, fun page _ => kept.words page List.not_mem_nil⟩
  obtain ⟨soundNext, words⟩ := drawn_sound root initial system supply sound frames member drains ⟨other, frames⟩ ⟨other, system.lists⟩
    ⟨rfl, sound.aligned, drains⟩ afterPageable keptAll system.targets [] rfl (fun _ none => absurd none List.not_mem_nil)
    (fun _ none => absurd none List.not_mem_nil) (List.Sublist.refl frames)
  refine ⟨⟨⟨⟨other, system.lists⟩, false⟩, system.outstanding, system.targets⟩, ?_, soundNext, ⟨rfl, ?_⟩,
    fun page held index _ => words page held index⟩
  · rw [systemStep, unmapRange, unmapped, Option.map_some, ← sound.idle]
  · exact space_placed root system _ vaddr nPages.toNat _ outside range

theorem frames_in_free (lists : Pmem.FreeLists) (order : Nat) (start : Addr)
    (covered : ∀ byte, cover Pmem.bytes [(order, start)] byte ≤ Pmem.freeCover lists byte) (page : Addr)
    (inside : page ∈ framesIn (order, start)) : Pmem.FreeFrame lists page := by
  have one := (cover_pos_iff Pmem.bytes [(order, start)] page.toNat).mpr ⟨(order, start), List.mem_singleton_self _, inside.2⟩
  exact ⟨inside.1, Nat.lt_of_lt_of_le one (covered page.toNat)⟩

theorem allocate_carried (supply : Supply initial) (sound : Sound root initial system) (nPages : Nat)
    (owed : Owed root system (.allocate nPages)) :
    ∃ next, systemStep root system (.allocate nPages) = some next ∧ Carried root initial system next (.allocate nPages) := by
  obtain ⟨fits, supplied⟩ := owed
  obtain ⟨start, lists, done⟩ := Pmem.allocate_returns nPages system.lists fits supplied
  obtain ⟨aligned, startAligned⟩ :=
    Pmem.allocate_all Pmem.Aligned Pmem.aligned_split_closed nPages system.lists lists start fits sound.aligned done
  have moved := fun byte => Pmem.allocate_cover nPages system.lists lists start byte fits sound.aligned done
  have owned : ∀ byte, cover Pmem.bytes (ownedBlocks ⟨⟨⟨system.mem, lists⟩, false⟩, ⟨start, nPages⟩ :: system.outstanding, system.targets⟩)
      byte = cover Pmem.bytes (ownedBlocks system) byte + cover Pmem.bytes [(Pmem.getAllocOrder nPages, start)] byte := by
    intro byte
    simp only [ownedBlocks, System.pmem, Pmem.handedOut, List.map_cons, Pmem.allocationBlock, List.cons_append, cover_cons, cover_nil]
    omega
  have taken : ∀ page ∈ framesIn (Pmem.getAllocOrder nPages, start), Pmem.FreeFrame system.lists page :=
    frames_in_free system.lists _ start fun byte => by
      have whole := moved byte
      omega
  have fewer : ∀ page, Pmem.FreeFrame lists page → Pmem.FreeFrame system.lists page := fun page free =>
    ⟨free.1, by have whole := moved page.toNat; have left := free.2; omega⟩
  refine ⟨⟨⟨⟨system.mem, lists⟩, false⟩, ⟨start, nPages⟩ :: system.outstanding, system.targets⟩, ?_, ⟨rfl, sound.tree, sound.plain,
    aligned, ?_, ?_, ?_, ?_⟩, ⟨rfl, start, taken, ?_⟩, fun _ _ _ _ => rfl⟩
  · have few : ¬ 2 ^ Pmem.allocMaxOrder < nPages := Nat.not_lt.mpr fits
    simp only [systemStep, Pmem.step, System.pmem, done, Option.map_some, if_neg few, ← sound.idle]
  · exact List.forall_mem_cons.mpr ⟨⟨fits, startAligned⟩, sound.taken⟩
  · intro byte
    have before := sound.conserved byte
    have whole := moved byte
    rw [owned]
    dsimp only
    omega
  · exact fun page free => sound.free page (fewer page free)
  · intro page held
    obtain ⟨pageAligned, covered⟩ := held
    rw [owned] at covered
    by_cases before : 0 < cover Pmem.bytes (ownedBlocks system) page.toNat
    · exact sound.held page ⟨pageAligned, before⟩
    · obtain ⟨block, blockMember, inside⟩ :=
        (cover_pos_iff Pmem.bytes [(Pmem.getAllocOrder nPages, start)] page.toNat).mp (by omega)
      obtain rfl := List.mem_singleton.mp blockMember
      exact (sound.free page (taken page ⟨pageAligned, inside⟩)).1
  · ext page
    have whole := moved page.toNat
    have once := supply.once page.toNat
    have conserved := sound.conserved page.toNat
    have inBlock := cover_pos_iff Pmem.bytes [(Pmem.getAllocOrder nPages, start)] page.toNat
    simp only [List.mem_singleton, exists_eq_left] at inBlock
    constructor
    · intro free
      refine ⟨fewer page free, fun inside => ?_⟩
      have block := inBlock.mpr inside.2
      have left := free.2
      dsimp only at left
      omega
    · rintro ⟨free, outside⟩
      refine ⟨free.1, ?_⟩
      have none : ¬ 0 < cover Pmem.bytes [(Pmem.getAllocOrder nPages, start)] page.toNat := fun block =>
        outside ⟨free.1, inBlock.mp block⟩
      have before := free.2
      dsimp only
      omega

theorem free_carried (sound : Sound root initial system) (start : Addr) (nPages : Nat)
    (owed : Owed root system (.free start nPages)) :
    ∃ next, systemStep root system (.free start nPages) = some next ∧ Carried root initial system next (.free start nPages) := by
  obtain ⟨allowed, guard, clear⟩ := owed
  obtain ⟨fits, startAligned⟩ := sound.taken ⟨start, nPages⟩ allowed
  obtain ⟨lists, done, aligned, covers⟩ := Pmem.freed_cover system.pmem start nPages fits sound.aligned startAligned guard
  have sameBlocks : (ownedBlocks system).Perm ((Pmem.getAllocOrder nPages, start) ::
      ownedBlocks ⟨⟨⟨system.mem, lists⟩, false⟩, system.outstanding.erase ⟨start, nPages⟩, system.targets⟩) :=
    ((List.perm_cons_erase allowed).map Pmem.allocationBlock).append_right _
  have owned : ∀ byte, cover Pmem.bytes (ownedBlocks system) byte =
      cover Pmem.bytes (ownedBlocks ⟨⟨⟨system.mem, lists⟩, false⟩, system.outstanding.erase ⟨start, nPages⟩, system.targets⟩) byte +
        cover Pmem.bytes [(Pmem.getAllocOrder nPages, start)] byte := by
    intro byte
    rw [cover_perm Pmem.bytes _ _ byte sameBlocks, cover_cons, cover_cons, cover_nil]
    omega
  have inBlock : ∀ page : Addr, 0 < cover Pmem.bytes [(Pmem.getAllocOrder nPages, start)] page.toNat ↔
      page.toNat ∈ Pmem.bytes (Pmem.getAllocOrder nPages, start) := fun page => by
    rw [cover_pos_iff]
    simp only [List.mem_singleton, exists_eq_left]
  have heldBefore : ∀ page ∈ framesIn (Pmem.getAllocOrder nPages, start), Held system page := fun page inside =>
    ⟨inside.1, by have one := (inBlock page).mpr inside.2; have all := owned page.toNat; omega⟩
  refine ⟨⟨⟨⟨system.mem, lists⟩, false⟩, system.outstanding.erase ⟨start, nPages⟩, system.targets⟩, ?_, ⟨rfl, sound.tree, sound.plain,
    aligned, fun other member => sound.taken other (List.mem_of_mem_erase member), ?_, ?_, ?_⟩, ⟨rfl, ?_⟩, fun _ _ _ _ => rfl⟩
  · have freed : Pmem.free start nPages system.lists = some lists := done
    simp only [systemStep, Pmem.step, System.pmem, freed, Option.map_some, ← sound.idle]
  · intro byte
    have before := sound.conserved byte
    have all := owned byte
    have whole := covers byte
    dsimp only [System.pmem] at whole ⊢
    omega
  · intro page free
    by_cases before : 0 < Pmem.freeCover system.lists page.toNat
    · exact sound.free page ⟨free.1, before⟩
    · have whole := covers page.toNat
      have some := free.2
      dsimp only [System.pmem] at whole some
      have inside : page ∈ framesIn (Pmem.getAllocOrder nPages, start) := ⟨free.1, (inBlock page).mp (by omega)⟩
      exact ⟨sound.held page (heldBefore page inside), clear page inside⟩
  · intro page held
    exact sound.held page ⟨held.1, by have all := owned page.toNat; have some := held.2; omega⟩
  · ext page
    have whole := covers page.toNat
    have block := inBlock page
    dsimp only [System.pmem] at whole
    constructor
    · intro free
      have some := free.2
      dsimp only at some
      by_cases before : 0 < Pmem.freeCover system.lists page.toNat
      · exact .inl ⟨free.1, before⟩
      · exact .inr ⟨free.1, block.mp (by omega)⟩
    · rintro (free | inside)
      · exact ⟨free.1, by have some := free.2; dsimp only; omega⟩
      · exact ⟨inside.1, by have one := block.mpr inside.2; dsimp only; omega⟩

theorem write_carried (supply : Supply initial) (sound : Sound root initial system) (page : Addr) (index : BitVec 9) (value : BitVec 64)
    (owed : Owed root system (.write page index value)) :
    ∃ next, systemStep root system (.write page index value) = some next ∧ Carried root initial system next (.write page index value) := by
  have fresh := sound.held page owed
  have pageAligned : Aligned page := fresh.whole ▸ frame_aligned page
  have kept := data_write_kept system.mem root page index value sound.tree sound.plain fresh
  refine ⟨_, rfl, ⟨sound.idle, kept.tree, kept.plain, sound.aligned, sound.taken, sound.conserved, ?_,
    fun other held => kept.fresh other (sound.held other held)⟩, ?_, ?_⟩
  · intro other free
    obtain ⟨otherFresh, clear⟩ := sound.free other free
    refine ⟨kept.fresh other otherFresh, fun otherIndex => ?_⟩
    dsimp only
    rw [write_elsewhere system.mem _ _ value fun same => ?_]
    · exact clear otherIndex
    · obtain ⟨rfl, _⟩ := entry_addr_inj other page otherIndex index (otherFresh.whole ▸ frame_aligned other) pageAligned same
      exact not_held_free root initial system supply sound other free owed
  · rw [Space.Outcome, spaceOf, spaceOf, Space.mk.injEq]
    refine ⟨funext fun user => ?_, rfl⟩
    by_cases outside : OutsideSlot user
    · rw [if_pos outside, if_pos outside]
      exact kept.mapped user outside
    · rw [if_neg outside, if_neg outside]
  · intro other held otherIndex different
    refine write_elsewhere system.mem _ _ value fun same => ?_
    obtain ⟨rfl, rfl⟩ := entry_addr_inj other page otherIndex index ((sound.held other held).whole ▸ frame_aligned other) pageAligned same
    exact different value rfl

theorem call_carried (supply : Supply initial) (sound : Sound root initial system) (call : SystemCall) (owed : Owed root system call) :
    ∃ next, systemStep root system call = some next ∧ Carried root initial system next call := by
  cases call with
  | fault errcode faultAddr => exact fault_carried root initial system supply sound errcode faultAddr owed
  | mapRange vaddr paddr nPages flags => exact map_range_carried root initial system supply sound vaddr paddr nPages flags owed
  | unmapRange vaddr nPages => exact unmap_range_carried root initial system supply sound vaddr nPages owed
  | allocate nPages => exact allocate_carried root initial system supply sound nPages owed
  | free start nPages => exact free_carried root initial system sound start nPages owed
  | write page index value => exact write_carried root initial system supply sound page index value owed

end

-- What a run starts from: page tables without large pages, and free frames that are none of them and read as clear.
structure Booted (root : Addr) (initial : Pmem.FreeLists) (mem : Memory) : Prop where
  tree : Tree mem root
  plain : Plain mem root
  wellFormed : Pmem.WellFormed initial
  small : ∀ byte ∈ Pmem.freeBytes initial, byte < 2 ^ 52
  unused : ∀ page, Pmem.FreeFrame initial page → ∀ path, OwnPath path → tableOn mem root path ≠ some page
  clear : ∀ page, Pmem.FreeFrame initial page → Clear mem page

def started (mem : Memory) (initial : Pmem.FreeLists) : System := ⟨⟨⟨mem, initial⟩, false⟩, [], []⟩

theorem page_aligned_iff (page : Addr) : Pmem.Aligned (0, page) ↔ Aligned page := by
  have size : 2 ^ (0 + 12) = 4096 := by decide
  rw [Pmem.Aligned, Aligned]
  dsimp only
  rw [size, Nat.dvd_iff_mod_eq_zero]

section
variable (root : Addr) (initial : Pmem.FreeLists)

theorem booted_supply (mem : Memory) (booted : Booted root initial mem) : Supply initial where
  once := Pmem.well_formed_once initial booted.wellFormed
  small := fun byte covered => booted.small byte ((Pmem.mem_free_bytes initial byte).mpr covered)

theorem started_owns_nothing (mem : Memory) (byte : Nat) : cover Pmem.bytes (ownedBlocks (started mem initial)) byte = 0 := by
  have none : ownedBlocks (started mem initial) = [] := rfl
  rw [none, cover_nil]

theorem booted_sound (mem : Memory) (booted : Booted root initial mem) : Sound root initial (started mem initial) where
  idle := rfl
  tree := booted.tree
  plain := booted.plain
  aligned := booted.wellFormed.aligned
  taken := fun _ member => absurd member List.not_mem_nil
  conserved := fun byte => (started_owns_nothing initial mem byte ▸ Nat.add_zero _).le
  free := by
    intro page free
    have small := booted.small page.toNat ((Pmem.mem_free_bytes initial page.toNat).mpr free.2)
    have whole := whole_frame page ((page_aligned_iff page).mp free.1) small
    exact ⟨⟨whole, fun vaddr level outside low => booted.unused page free _ (path_to_own vaddr level outside low)⟩, booted.clear page free⟩
  held := fun page held => absurd held.2 (by rw [started_owns_nothing]; exact Nat.lt_irrefl 0)

-- The call does not name the page of the address.
def Spares (vaddr : Addr) (call : SystemCall) : Prop :=
  match call with
  | .mapRange other _ nPages _ => ∀ index < nPages.toNat, ¬ SamePage vaddr (pageOf other index)
  | .unmapRange other nPages => ∀ index < nPages.toNat, ¬ SamePage vaddr (pageOf other index)
  | _ => True

theorem spared_mapping (system next : System) (call : SystemCall) (vaddr : Addr) (entry : BitVec 64)
    (outside : OutsideSlot vaddr) (owed : Owed root system call) (spares : Spares vaddr call)
    (outcome : (spaceOf root system).Outcome call (spaceOf root next)) (mapped : mapping system.mem root vaddr = some entry) :
    mapping next.mem root vaddr = some entry := by
  have visible : ∀ other : System, (spaceOf root other).mapped vaddr = mapping other.mem root vaddr := fun other => if_pos outside
  rw [← visible] at mapped ⊢
  cases call with
  | fault errcode faultAddr =>
      obtain ⟨page, _, _, _, _, others⟩ := outcome
      rw [others vaddr fun index below same => ?_]
      · exact mapped
      · obtain rfl : index = 0 := by omega
        rw [page_of_zero] at same
        rw [visible, same_page_mapping system.mem root faultAddr vaddr same, owed.2.2.1] at mapped
        cases mapped
  | mapRange other paddr nPages flags => exact (outcome.2.2 vaddr spares).trans mapped
  | unmapRange other nPages => exact (outcome.2.2 vaddr spares).trans mapped
  | allocate nPages => exact (congrFun outcome.1 vaddr).trans mapped
  | free start nPages => exact (congrFun outcome.1 vaddr).trans mapped
  | write page index value =>
      have same : spaceOf root next = spaceOf root system := outcome
      rw [same]
      exact mapped

section
variable (mem : Memory) (calls : List SystemCall) (booted : Booted root initial mem)
  (along : Along (systemStep root) (Owed root) (started mem initial) calls)

include booted along

theorem paging_runs_refine :
    ∃ last, run (systemStep root) (started mem initial) calls = some last ∧
      Traces Space.Outcome (spaceOf root (started mem initial)) calls (spaceOf root last) ∧
      ∀ vaddr, OutsideSlot vaddr → walk last.mem root vaddr =
        ((spaceOf root last).mapped vaddr).map fun entry => frame entry + (vaddr &&& 0xFFF) := by
  have supply := booted_supply root initial mem booted
  obtain ⟨last, finished, sound, traces⟩ := run_traces (systemStep root) Space.Outcome (spaceOf root) (Owed root) (Sound root initial)
    (fun system call sound owed => by
      obtain ⟨next, stepped, carried⟩ := call_carried root initial system supply sound call owed
      exact ⟨next, stepped, carried.sound, carried.outcome⟩)
    (started mem initial) calls (booted_sound root initial mem booted) along
  refine ⟨last, finished, traces, fun vaddr outside => ?_⟩
  rw [walk_mapping last.mem root vaddr sound.plain outside, spaceOf]
  dsimp only
  rw [if_pos outside]

-- A mapped page keeps its entry in every run that maps and unmaps other pages.
theorem paging_runs_keep_pages :
    ∃ last, run (systemStep root) (started mem initial) calls = some last ∧ Plain last.mem root ∧
      ∀ vaddr entry, OutsideSlot vaddr → (∀ call ∈ calls, Spares vaddr call) → mapping mem root vaddr = some entry →
        mapping last.mem root vaddr = some entry := by
  have supply := booted_supply root initial mem booted
  have sound := booted_sound root initial mem booted
  have carries := fun system call sound owed => call_carried root initial system supply sound call owed
  obtain ⟨last, finished, soundLast⟩ := visits_run (systemStep root) _ _ calls (visits_of_along (systemStep root) (Owed root)
    (Sound root initial) (fun system call sound owed => by
      obtain ⟨next, stepped, carried⟩ := carries system call sound owed
      exact ⟨next, stepped, carried.sound⟩) _ calls sound along)
  refine ⟨last, finished, soundLast.plain, fun vaddr entry outside spares mapped => ?_⟩
  have guarded := along_and (systemStep root) (Owed root) (fun _ call => Spares vaddr call) _ calls along
    (along_forall (systemStep root) (Spares vaddr) _ calls spares)
  refine (run_invariant (systemStep root) (fun system call => Owed root system call ∧ Spares vaddr call)
    (fun system => Sound root initial system ∧ mapping system.mem root vaddr = some entry) ?_ (started mem initial) last calls
    ⟨sound, mapped⟩ guarded finished).2
  rintro system call next ⟨systemSound, before⟩ ⟨owed, spared⟩ stepped
  obtain ⟨after, done, carried⟩ := carries system call systemSound owed
  obtain rfl := Option.some.inj (done.symm.trans stepped)
  exact ⟨carried.sound, spared_mapping root system after call vaddr entry outside owed spared carried.outcome before⟩

end

end

-- Eight free frames from 0x8000 on, behind the tables with a hole.
def eightFrames : Pmem.FreeLists := Pmem.single 3 0x8000

theorem eight_frames_listed (block : Pmem.Block) (member : block ∈ Pmem.listed eightFrames) : block = (3, 0x8000) := by
  obtain ⟨order, start⟩ := block
  obtain ⟨_, found⟩ := (Pmem.mem_listed eightFrames (order, start)).mp member
  rw [eightFrames, Pmem.single, Pmem.setList, Function.update_apply] at found
  split at found
  · rename_i same
    exact Prod.ext same (List.mem_singleton.mp found)
  · cases found

theorem eight_frames_bytes (byte : Nat) (free : byte ∈ Pmem.freeBytes eightFrames) : 0x8000 ≤ byte ∧ byte < 0x10000 := by
  obtain ⟨block, member, inside⟩ := free
  rw [eight_frames_listed block member] at inside
  exact inside

theorem eight_frames_free (page : Addr) (free : Pmem.FreeFrame eightFrames page) : Aligned page ∧ 0x8000 ≤ page.toNat :=
  ⟨(page_aligned_iff page).mp free.1, (eight_frames_bytes page.toNat ((Pmem.mem_free_bytes eightFrames page.toNat).mpr free.2)).1⟩

theorem holed_tables_behind (address : Addr) (behind : 0x8000 ≤ address.toNat) : holedTables address = 0 := by
  have apart : ∀ entry : Addr, entry.toNat < 0x8000 → address ≠ entry := fun entry low same => by
    rw [same] at behind
    omega
  rw [holedTables, if_neg (apart _ (by decide)), if_neg (apart _ (by decide)), if_neg (apart _ (by decide)),
    if_neg (apart _ (by decide)), if_neg (apart _ (by decide))]

theorem holed_tables_huge (address : Addr) : huge (holedTables address) = false := by
  rw [holedTables]
  split_ifs <;> rfl

theorem holed_tables_booted : Booted 0x1000 eightFrames holedTables where
  tree := holed_tables_tree
  plain := fun _ _ _ _ _ _ _ => holed_tables_huge _
  wellFormed := Pmem.single_well_formed 3 0x8000 (by decide) (by decide +kernel : 2 ^ (3 + 12) ∣ (0x8000 : Addr).toNat)
  small := fun byte free => (eight_frames_bytes byte free).2.trans (by decide)
  unused := by
    intro page free path own on
    have known := holed_tables_on path page own on
    obtain ⟨_, low⟩ := eight_frames_free page free
    simp only [List.mem_cons, Prod.mk.injEq, List.not_mem_nil, or_false] at known
    rcases known with ⟨_, rfl⟩ | ⟨_, rfl⟩ | ⟨_, rfl⟩ | ⟨_, rfl⟩ <;> exact absurd low (by decide)
  clear := by
    intro page free index
    obtain ⟨aligned, low⟩ := eight_frames_free page free
    rw [holed_tables_behind _ (by rw [entry_addr_to_nat page index aligned]; omega)]
    rfl

def holeCalls : List SystemCall := [.fault 2 0x1FF123, .fault 2 0x1FE000, .unmapRange 0x1FE000 3]

def onceFaulted : Option System := systemStep 0x1000 (started holedTables eightFrames) (.fault 2 0x1FF123)

theorem once_faulted : onceFaulted.isSome := by decide +kernel

def twiceFaulted : Option System := systemStep 0x1000 (onceFaulted.get once_faulted) (.fault 2 0x1FE000)

theorem twice_faulted : twiceFaulted.isSome := by decide +kernel

theorem hole_calls_owed : Along (systemStep 0x1000) (Owed 0x1000) (started holedTables eightFrames) holeCalls := by
  refine (along_cons _ _ _ _ _ _ (Option.some_get once_faulted).symm).mpr ⟨⟨by decide, by decide, by decide, by decide +kernel⟩, ?_⟩
  refine (along_cons _ _ _ _ _ _ (Option.some_get twice_faulted).symm).mpr
    ⟨⟨by decide, by decide, by decide +kernel, by decide +kernel⟩, ⟨⟨by decide, ?_⟩, fun _ _ => trivial⟩⟩
  unfold UnmapCondition
  decide +kernel

theorem hole_calls_refine :
    ∃ last, run (systemStep 0x1000) (started holedTables eightFrames) holeCalls = some last ∧
      Traces Space.Outcome (spaceOf 0x1000 (started holedTables eightFrames)) holeCalls (spaceOf 0x1000 last) ∧
      ∀ vaddr, OutsideSlot vaddr → walk last.mem 0x1000 vaddr =
        ((spaceOf 0x1000 last).mapped vaddr).map fun entry => frame entry + (vaddr &&& 0xFFF) :=
  paging_runs_refine 0x1000 eightFrames holedTables holeCalls holed_tables_booted hole_calls_owed

end Kraftwerk.Paging
