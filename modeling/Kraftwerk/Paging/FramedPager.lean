import Kraftwerk.Paging.PagePlacing
import Kraftwerk.Pmem.FrameSupply

set_option autoImplicit false

-- mem_create_pagetable, map_range and handle_pagefault over the free lists of physical_memory::allocate, where the
-- machine has the answers of allocate(1) as a list.
namespace Kraftwerk.Paging

structure FramedMemory where
  mem : Memory
  lists : Pmem.FreeLists

def takeFrame (framed : FramedMemory) : Option (Addr × FramedMemory) :=
  (Pmem.allocate 1 framed.lists).map fun (page, lists) => (page, { framed with lists := lists })

def framedCreateEntry (root window : Addr) (framed : FramedMemory) : Option FramedMemory :=
  (load root framed.mem window).bind fun entry =>
    if !present entry then
      (takeFrame framed).bind fun (table, framed) =>
        (store root framed.mem window (table ||| 0x101)).map fun mem => { framed with mem := mem }
    else some framed

def framedCreatePagetable (root vaddr : Addr) (framed : FramedMemory) : Option FramedMemory :=
  (framedCreateEntry root (slot memPml4tAddr (memPml4Index vaddr)) framed).bind fun framed =>
    (framedCreateEntry root (slot (memPdptAddr vaddr) (memPdptIndex vaddr)) framed).bind fun framed =>
      framedCreateEntry root (slot (memPdirAddr vaddr) (memPdirIndex vaddr)) framed

def framedMapPages (root : Addr) (pflags : BitVec 32) : Nat → Addr → Addr → FramedMemory → Option FramedMemory
  | 0, _, _, framed => some framed
  | left + 1, vaddr, paddr, framed =>
      (memCheckPagetable root vaddr framed.mem).bind fun there =>
        (if !there then framedCreatePagetable root vaddr framed else some framed).bind fun framed =>
          (storeEntry root vaddr framed.mem ((paddr &&& ~~~0xFFF) ||| pflags.setWidth 64)).bind fun mem =>
            framedMapPages root pflags left (vaddr + 0x1000) (paddr + 0x1000) { framed with mem := mem }

def framedMapRange (root vaddr paddr : Addr) (nPages : BitVec 32) (flags : PageFlags) (framed : FramedMemory) : Option FramedMemory :=
  framedMapPages root (flagsToX8664 flags) nPages.toNat vaddr paddr framed

structure FramedPager extends FramedMemory where
  pfaulting : Bool

def framedHandlePagefault (root : Addr) (_errcode : BitVec 64) (faultAddr : Addr) (pager : FramedPager) : Option FramedPager :=
  if pager.pfaulting then none
  else if faultAddr < 0x1000 then none
  else
    (takeFrame pager.toFramedMemory).bind fun (newPage, framed) =>
      (memCheckPagetable root faultAddr framed.mem).bind fun there =>
        (if !there then framedCreatePagetable root faultAddr framed else some framed).bind fun framed =>
          (storeEntry root faultAddr framed.mem ((newPage &&& ~~~0xFFF) ||| 0x1)).map fun mem =>
            ⟨{ framed with mem := mem }, false⟩

-- The frames that are still to come are the next answers of allocate(1).
def Answers (supply : Pmem.FreeLists → List Addr → Prop) : Prop :=
  ∀ lists page rest, supply lists (page :: rest) → ∃ next, Pmem.allocate 1 lists = some (page, next) ∧ supply next rest

section Simulated

variable (supply : Pmem.FreeLists → List Addr → Prop) (answers : Answers supply)

-- The machine whose list holds what the free lists will answer.
structure Follows (machine : Machine) (framed : FramedMemory) : Prop where
  mem : framed.mem = machine.mem
  frames : supply framed.lists machine.frames

-- Where the machine gets through, the code on the free lists does so too, to a state that follows.
def Simulated (done : Option Machine) (framedDone : Option FramedMemory) : Prop :=
  ∀ after, done = some after → ∃ framedAfter, framedDone = some framedAfter ∧ Follows supply after framedAfter

theorem simulated_some (machine : Machine) (framed : FramedMemory) (follows : Follows supply machine framed) :
    Simulated supply (some machine) (some framed) := fun _ same => ⟨framed, rfl, Option.some.inj same ▸ follows⟩

theorem simulated_bind (done : Option Machine) (framedDone : Option FramedMemory) (onward : Machine → Option Machine)
    (framedOnward : FramedMemory → Option FramedMemory) (now : Simulated supply done framedDone)
    (later : ∀ machine framed, Follows supply machine framed → Simulated supply (onward machine) (framedOnward framed)) :
    Simulated supply (done.bind onward) (framedDone.bind framedOnward) := by
  intro after finished
  obtain ⟨machine, first, rest⟩ := Option.bind_eq_some_iff.mp finished
  obtain ⟨framed, framedFirst, follows⟩ := now machine first
  rw [framedFirst, Option.bind_some]
  exact later machine framed follows after rest

include answers in
theorem take_frame_simulated (machine after : Machine) (page : Addr) (framed : FramedMemory) (follows : Follows supply machine framed)
    (drawn : allocate machine = some (page, after)) : ∃ framedAfter, takeFrame framed = some (page, framedAfter) ∧
      Follows supply after framedAfter := by
  have coming := follows.frames
  rw [allocate] at drawn
  split at drawn
  · cases drawn
  · rename_i rest frames
    cases drawn
    rw [frames] at coming
    obtain ⟨next, taken, later⟩ := answers framed.lists page rest coming
    exact ⟨{ framed with lists := next }, by rw [takeFrame, taken, Option.map_some], follows.mem, later⟩

section
variable (root vaddr : Addr) (machine : Machine) (framed : FramedMemory) (follows : Follows supply machine framed)

include answers follows

theorem create_entry_simulated (window : Addr) : Simulated supply (createEntry root window machine) (framedCreateEntry root window framed) := by
  intro after created
  obtain ⟨entry, loaded, rest⟩ := Option.bind_eq_some_iff.mp created
  rw [framedCreateEntry, follows.mem, loaded, Option.bind_some]
  split at rest
  · rename_i absent
    obtain ⟨⟨table, popped⟩, drawn, linked⟩ := Option.bind_eq_some_iff.mp rest
    obtain ⟨mem, stored, rfl⟩ := Option.map_eq_some_iff.mp linked
    obtain ⟨next, taken, nextFollows⟩ := take_frame_simulated supply answers machine popped table framed follows drawn
    rw [if_pos absent, taken, Option.bind_some]
    dsimp only at stored ⊢
    rw [nextFollows.mem, stored]
    exact ⟨_, rfl, rfl, nextFollows.frames⟩
  · rename_i there
    rw [if_neg there]
    exact ⟨framed, rfl, Option.some.inj rest ▸ follows⟩

theorem create_pagetable_simulated : Simulated supply (memCreatePagetable root vaddr machine) (framedCreatePagetable root vaddr framed) := by
  refine simulated_bind supply _ _ _ _ (create_entry_simulated supply answers root machine framed follows _) fun first framedFirst firstFollows => ?_
  refine simulated_bind supply _ _ _ _ (create_entry_simulated supply answers root first framedFirst firstFollows _)
    fun second framedSecond secondFollows => ?_
  exact create_entry_simulated supply answers root second framedSecond secondFollows _

theorem found_or_made_simulated (there : Bool) : Simulated supply (if !there then memCreatePagetable root vaddr machine else some machine)
    (if !there then framedCreatePagetable root vaddr framed else some framed) := by
  split
  · exact create_pagetable_simulated supply answers root vaddr machine framed follows
  · exact simulated_some supply machine framed follows

end

include answers in
theorem map_pages_simulated (root : Addr) (pflags : BitVec 32) (count : Nat) (vaddr paddr : Addr) (machine : Machine)
    (framed : FramedMemory) (follows : Follows supply machine framed) :
    Simulated supply (mapPages root pflags count vaddr paddr machine) (framedMapPages root pflags count vaddr paddr framed) := by
  induction count generalizing vaddr paddr machine framed with
  | zero => exact simulated_some supply machine framed follows
  | succ count ih =>
      intro after done
      obtain ⟨there, checked, rest⟩ := Option.bind_eq_some_iff.mp done
      rw [framedMapPages, follows.mem, checked, Option.bind_some]
      refine simulated_bind supply _ _ _ _ (found_or_made_simulated supply answers root vaddr machine framed follows there) ?_ after rest
      intro made framedMade madeFollows last finished
      obtain ⟨mem, stored, later⟩ := Option.bind_eq_some_iff.mp finished
      rw [madeFollows.mem, stored, Option.bind_some]
      exact ih (vaddr + 0x1000) (paddr + 0x1000) { made with mem := mem } { framedMade with mem := mem }
        ⟨rfl, madeFollows.frames⟩ last later

include answers in
theorem handle_pagefault_simulated (root : Addr) (errcode : BitVec 64) (faultAddr : Addr) (pager after : Pager) (framed : FramedPager)
    (follows : Follows supply pager.toMachine framed.toFramedMemory) (same : framed.pfaulting = pager.pfaulting)
    (handled : handlePagefault root errcode faultAddr pager = some after) :
    ∃ framedAfter, framedHandlePagefault root errcode faultAddr framed = some framedAfter ∧
      Follows supply after.toMachine framedAfter.toFramedMemory ∧ framedAfter.pfaulting = after.pfaulting := by
  rw [handlePagefault] at handled
  rw [framedHandlePagefault, same]
  split at handled
  · cases handled
  · rename_i idle
    rw [if_neg idle]
    split at handled
    · cases handled
    · rename_i notNull
      rw [if_neg notNull]
      obtain ⟨⟨newPage, machine⟩, drawn, rest⟩ := Option.bind_eq_some_iff.mp handled
      obtain ⟨there, checked, found⟩ := Option.bind_eq_some_iff.mp rest
      obtain ⟨made, creates, written⟩ := Option.bind_eq_some_iff.mp found
      obtain ⟨mem, stored, rfl⟩ := Option.map_eq_some_iff.mp written
      obtain ⟨next, taken, nextFollows⟩ := take_frame_simulated supply answers pager.toMachine machine newPage framed.toFramedMemory follows drawn
      obtain ⟨framedMade, framedCreates, madeFollows⟩ :=
        found_or_made_simulated supply answers root faultAddr machine next nextFollows there made creates
      rw [taken, Option.bind_some]
      dsimp only
      rw [nextFollows.mem, checked, Option.bind_some, framedCreates, Option.bind_some, madeFollows.mem, stored]
      exact ⟨_, rfl, ⟨rfl, madeFollows.frames⟩, rfl⟩

end Simulated

end Kraftwerk.Paging
