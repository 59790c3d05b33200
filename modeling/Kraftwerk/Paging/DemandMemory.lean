import Kraftwerk.Lib.FlatMemory
import Kraftwerk.Paging.AddressSpace

set_option autoImplicit false

-- Loads and stores over the page fault handler: pages that are made when they are first touched, against flat memory.
namespace Kraftwerk.Paging

open FlatMemory

-- The fault is one of an entry that is not present; bit 1 says that it was a write.
def faultCode : Access Addr (BitVec 64) → BitVec 64
  | .load _ => 0
  | .store _ _ => 2

def attempt (root : Addr) (pager : FramedPager) : Access Addr (BitVec 64) → Option (List (BitVec 64) × FramedPager)
  | .load vaddr => (load root pager.mem vaddr).map fun word => ([word], pager)
  | .store vaddr value => (store root pager.mem vaddr value).map fun mem => ([], { pager with mem := mem })

-- An instruction that faults is executed again when handle_pagefault has returned.
def execute (root : Addr) : Nat → FramedPager → Access Addr (BitVec 64) → Option (List (BitVec 64) × FramedPager)
  | 0, _, _ => none
  | fuel + 1, pager, access =>
      match attempt root pager access with
      | some done => some done
      | none =>
          (framedHandlePagefault root (faultCode access) access.address pager).bind fun pager => execute root fuel pager access

def InPages (pages : List Addr) (vaddr : Addr) : Prop := ∃ page ∈ pages, SamePage vaddr page

-- A word of one of the pages. Addresses that are not canonical are never translated.
structure Place (pages : List Addr) where
  vaddr : Addr
  inPages : InPages pages vaddr
  notNull : ¬ vaddr < 0x1000
  whole : vaddr.toNat % 8 = 0
  canonical : vaddr.toNat < 2 ^ 47 ∨ 2 ^ 64 - 2 ^ 47 ≤ vaddr.toNat
deriving DecidableEq

def wordIndex (vaddr : Addr) : BitVec 9 := BitVec.ofNat 9 (vaddr.toNat % 4096 / 8)

theorem word_address (page vaddr : Addr) (aligned : Aligned page) (whole : vaddr.toNat % 8 = 0) :
    page + (vaddr &&& 0xFFF) = entryAddr page (wordIndex vaddr) := by
  have offset : (vaddr &&& 0xFFF).toNat = vaddr.toNat % 4096 := by
    rw [BitVec.toNat_and]
    exact Nat.and_two_pow_sub_one_eq_mod vaddr.toNat 12
  have bound := page.isLt
  apply BitVec.eq_of_toNat_eq
  rw [entry_addr_to_nat page _ aligned, BitVec.toNat_add, offset, wordIndex, BitVec.toNat_ofNat]
  rw [Aligned] at aligned
  omega

-- Two canonical addresses of one page with the same offset are one address.
theorem place_unique (pages : List Addr) (place other : Place pages) (same : SamePage place.vaddr other.vaddr)
    (index : wordIndex place.vaddr = wordIndex other.vaddr) : place = other := by
  obtain ⟨first, ptbl⟩ := (path_to_extend place.vaddr other.vaddr 3).mp same
  obtain ⟨second, pdir⟩ := (path_to_extend place.vaddr other.vaddr 2).mp first
  obtain ⟨third, pdpt⟩ := (path_to_extend place.vaddr other.vaddr 1).mp second
  obtain ⟨_, pml4⟩ := (path_to_extend place.vaddr other.vaddr 0).mp third
  have level : ∀ low, walkIndex place.vaddr low = walkIndex other.vaddr low →
      place.vaddr.toNat / 2 ^ low % 512 = other.vaddr.toNat / 2 ^ low % 512 := fun low equal => by
    rw [← walk_index_to_nat, ← walk_index_to_nat, equal]
  have one := level 39 pml4
  have two := level 30 pdpt
  have three := level 21 pdir
  have four := level 12 ptbl
  have offset := congrArg BitVec.toNat index
  rw [wordIndex, wordIndex, BitVec.toNat_ofNat, BitVec.toNat_ofNat] at offset
  have bound := place.vaddr.isLt
  have otherBound := other.vaddr.isLt
  have whole := place.whole
  have otherWhole := other.whole
  have equal : place.vaddr = other.vaddr := by
    apply BitVec.eq_of_toNat_eq
    rcases place.canonical with low | high <;> rcases other.canonical with otherLow | otherHigh <;> omega
  cases place
  cases other
  cases equal
  rfl

def missing (mem : Memory) (root : Addr) (pages : List Addr) : Nat := pages.countP fun page => (mapping mem root page).isNone

theorem missing_less (mem other : Memory) (root page : Addr) (pages : List Addr) (member : page ∈ pages)
    (absent : mapping mem root page = none) (there : mapping other root page ≠ none)
    (kept : ∀ user ∈ pages, mapping other root user = none → mapping mem root user = none) :
    missing other root pages + 1 ≤ missing mem root pages := by
  obtain ⟨front, back, rfl⟩ := List.append_of_mem member
  have fewer : ∀ part ⊆ front ++ page :: back, missing other root part ≤ missing mem root part := fun part inside =>
    List.countP_mono_left fun user userMember none =>
      Option.isNone_iff_eq_none.mpr (kept user (inside userMember) (Option.isNone_iff_eq_none.mp none))
  have frontFewer := fewer front (List.subset_append_left front _)
  have backFewer := fewer back fun user userMember => List.mem_append_right front (List.mem_cons_of_mem page userMember)
  have gone : ¬ (mapping other root page).isNone = true := fun none => there (Option.isNone_iff_eq_none.mp none)
  rw [missing, missing] at frontFewer backFewer
  rw [missing, missing, List.countP_append, List.countP_append, List.countP_cons, List.countP_cons, if_neg gone,
    if_pos (Option.isNone_iff_eq_none.mpr absent)]
  omega

-- The pages that have been touched are backed by frames of their own from the supply, four of which are left for each other page.
structure Backed (root : Addr) (pages supply : List Addr) (start : Memory) (pager : FramedPager) (frames : List Addr) : Prop where
  idle : pager.pfaulting = false
  draws : Pmem.Draws pager.lists frames
  pageable : Pageable root ⟨pager.mem, frames⟩
  enough : 4 * missing pager.mem root pages ≤ frames.length
  part : frames ⊆ supply
  backing : ∀ vaddr, InPages pages vaddr → ∀ entry, mapping pager.mem root vaddr = some entry →
    frame entry ∈ supply ∧ frame entry ∉ frames ∧ FreshFrame pager.mem root (frame entry)
  apart : ∀ vaddr other, InPages pages vaddr → InPages pages other → ∀ entry otherEntry, mapping pager.mem root vaddr = some entry →
    mapping pager.mem root other = some otherEntry → frame entry = frame otherEntry → SamePage vaddr other
  others : ∀ user, OutsideSlot user → ¬ InPages pages user → mapping pager.mem root user = mapping start root user
  words : FramesKept start pager.mem root supply

def contents (root : Addr) (pages : List Addr) (pager : FramedPager) (place : Place pages) : Option (BitVec 64) :=
  load root pager.mem place.vaddr

section
variable (root : Addr) (pages supply : List Addr) (start : Memory) (pager : FramedPager) (frames : List Addr)
  (outside : ∀ page ∈ pages, OutsideSlot page) (backed : Backed root pages supply start pager frames)

include outside in
theorem place_outside (vaddr : Addr) (inPages : InPages pages vaddr) : OutsideSlot vaddr := by
  obtain ⟨page, member, same⟩ := inPages
  exact same_page_outside vaddr page same (outside page member)

include outside backed

theorem mapped_load (place : Place pages) (entry : BitVec 64) (mapped : mapping pager.mem root place.vaddr = some entry) :
    walk pager.mem root place.vaddr = some (entryAddr (frame entry) (wordIndex place.vaddr)) := by
  rw [walk_mapping pager.mem root place.vaddr backed.pageable.plain (place_outside pages outside place.vaddr place.inPages), mapped,
    Option.map_some, word_address (frame entry) place.vaddr (frame_aligned entry) place.whole]

theorem contents_mapped (place : Place pages) (word : BitVec 64) (here : contents root pages pager place = some word) :
    ∃ entry, mapping pager.mem root place.vaddr = some entry ∧ pager.mem (entryAddr (frame entry) (wordIndex place.vaddr)) = word := by
  obtain ⟨address, walked, read⟩ := Option.map_eq_some_iff.mp here
  rw [walk_mapping pager.mem root place.vaddr backed.pageable.plain (place_outside pages outside place.vaddr place.inPages)] at walked
  obtain ⟨entry, mapped, rfl⟩ := Option.map_eq_some_iff.mp walked
  rw [word_address (frame entry) place.vaddr (frame_aligned entry) place.whole] at read
  exact ⟨entry, mapped, read⟩

omit outside in
-- The handler returns on the frames of the free lists as it does on a machine that has the next ones of them.
theorem fault_page (errcode vaddr page : Addr) (rest : List Addr) (next : frames = page :: rest) (vaddrOutside : OutsideSlot vaddr)
    (notNull : ¬ vaddr < 0x1000) (three : 3 ≤ rest.length) :
    ∃ framed after, framedHandlePagefault root errcode vaddr pager = some framed ∧ framed.pfaulting = false ∧
      Follows Pmem.Draws after framed.toFramedMemory ∧ PagePlaced root vaddr ((page &&& ~~~0xFFF) ||| 0x1) ⟨pager.mem, rest⟩ after := by
  subst next
  obtain ⟨after, handled, idle, placed⟩ := fault_placed root vaddr errcode ⟨⟨pager.mem, page :: rest⟩, false⟩ page rest
    (pageable_rest root pager.mem page rest backed.pageable) rfl rfl notNull vaddrOutside three
  obtain ⟨framed, framedHandled, follows, framedIdle⟩ := handle_pagefault_simulated Pmem.Draws (fun _ _ _ drawn => drawn) root errcode
    vaddr ⟨⟨pager.mem, page :: rest⟩, false⟩ after pager ⟨rfl, backed.draws⟩ backed.idle handled
  exact ⟨framed, after.toMachine, framedHandled, framedIdle.trans idle, follows, placed⟩

-- A page of which all addresses were unmapped gets a frame that no other page has.
theorem placed_backed (vaddr page : Addr) (rest : List Addr) (next : frames = page :: rest) (inPages : InPages pages vaddr)
    (absent : mapping pager.mem root vaddr = none) (framed : FramedPager) (after : Machine) (idle : framed.pfaulting = false)
    (follows : Follows Pmem.Draws after framed.toFramedMemory)
    (placed : PagePlaced root vaddr ((page &&& ~~~0xFFF) ||| 0x1) ⟨pager.mem, rest⟩ after) :
    Backed root pages supply start framed after.frames ∧
      mapping framed.mem root vaddr = some ((page &&& ~~~0xFFF) ||| 0x1) ∧
      ∀ user, OutsideSlot user → ¬ SamePage user vaddr → mapping framed.mem root user = mapping pager.mem root user := by
  subst next
  obtain ⟨absentRest, _⟩ := List.nodup_cons.mp backed.pageable.fresh.distinct
  have fresh := backed.pageable.fresh.fresh page List.mem_cons_self
  obtain ⟨there, target⟩ := demand_entry page fresh.whole
  have here : mapping framed.mem root vaddr = some ((page &&& ~~~0xFFF) ||| 0x1) := by
    rw [follows.mem, placed.here, presentWord, if_pos there]
  have elsewhere : ∀ user, OutsideSlot user → ¬ SamePage user vaddr → mapping framed.mem root user = mapping pager.mem root user :=
    fun user userOutside apart => follows.mem ▸ placed.others user userOutside apart
  have notLater : ∀ other, other ∉ page :: rest → other ∉ after.frames := fun other notDrawn drawn =>
    notDrawn (List.mem_cons_of_mem page (placed.frames.subset drawn))
  have mappedBefore : ∀ user, InPages pages user → ∀ entry, mapping framed.mem root user = some entry →
      SamePage user vaddr ∧ frame entry = page ∨ mapping pager.mem root user = some entry := by
    intro user userPages entry mapped
    by_cases sameUser : SamePage user vaddr
    · rw [same_page_mapping framed.mem root vaddr user sameUser, here] at mapped
      exact .inl ⟨sameUser, Option.some.inj mapped ▸ target⟩
    · exact .inr ((elsewhere user (place_outside pages outside user userPages) sameUser).symm.trans mapped)
  refine ⟨⟨idle, follows.frames, ?_, ?_, ?_, ?_, ?_, ?_, ?_⟩, here, elsewhere⟩
  · rw [follows.mem]
    exact placed.pageable
  · obtain ⟨named, member, same⟩ := inPages
    have fewer := missing_less pager.mem framed.mem root named pages member
      ((same_page_mapping pager.mem root vaddr named same.symm).trans absent)
      (by rw [← same_page_mapping framed.mem root named vaddr same, here]; exact Option.some_ne_none _) fun user userMember none => by
        by_cases sameUser : SamePage user vaddr
        · rw [same_page_mapping framed.mem root vaddr user sameUser, here] at none
          cases none
        · exact (elsewhere user (outside user userMember) sameUser).symm.trans none
    have enough := backed.enough
    have draws := placed.draws
    rw [List.length_cons] at enough
    dsimp only at draws
    omega
  · exact fun other drawn => backed.part (List.mem_cons_of_mem page (placed.frames.subset drawn))
  · intro user userPages entry mapped
    rcases mappedBefore user userPages entry mapped with ⟨_, rfl⟩ | before
    · refine ⟨backed.part List.mem_cons_self, fun drawn => absentRest (placed.frames.subset drawn), ?_⟩
      rw [follows.mem]
      exact placed.kept.unused _ absentRest fresh
    · obtain ⟨inSupply, notDrawn, oldFresh⟩ := backed.backing user userPages entry before
      refine ⟨inSupply, notLater _ notDrawn, ?_⟩
      rw [follows.mem]
      exact placed.kept.unused _ (fun drawn => notDrawn (List.mem_cons_of_mem page drawn)) oldFresh
  · intro user other userPages otherPages entry otherEntry mapped otherMapped equal
    rcases mappedBefore user userPages entry mapped with ⟨sameUser, rfl⟩ | before <;>
      rcases mappedBefore other otherPages otherEntry otherMapped with ⟨sameOther, otherFrame⟩ | otherBefore
    · exact sameUser.trans sameOther.symm
    · exact absurd (equal ▸ List.mem_cons_self) (backed.backing other otherPages otherEntry otherBefore).2.1
    · exact absurd (equal.trans otherFrame ▸ List.mem_cons_self) (backed.backing user userPages entry before).2.1
    · exact backed.apart user other userPages otherPages entry otherEntry before otherBefore equal
  · intro user userOutside notPages
    obtain ⟨named, member, same⟩ := inPages
    rw [elsewhere user userOutside fun sameUser => notPages ⟨named, member, sameUser.trans same⟩]
    exact backed.others user userOutside notPages
  · rw [follows.mem]
    exact frames_kept_trans start pager.mem after.mem root supply rest
      (fun other drawn => backed.part (List.mem_cons_of_mem page drawn)) backed.words placed.kept

theorem fault_backed (errcode vaddr : Addr) (inPages : InPages pages vaddr) (notNull : ¬ vaddr < 0x1000)
    (absent : mapping pager.mem root vaddr = none) :
    ∃ after rest, framedHandlePagefault root errcode vaddr pager = some after ∧ Backed root pages supply start after rest ∧
      (∃ entry, mapping after.mem root vaddr = some entry) ∧
      ∀ user, InPages pages user → ∀ entry, mapping pager.mem root user = some entry → mapping after.mem root user = some entry ∧
        ∀ index, after.mem (entryAddr (frame entry) index) = pager.mem (entryAddr (frame entry) index) := by
  have enough := backed.enough
  have some_missing : 1 ≤ missing pager.mem root pages := by
    obtain ⟨named, member, same⟩ := inPages
    refine List.countP_pos_iff.mpr ⟨named, member, Option.isNone_iff_eq_none.mpr ?_⟩
    exact (same_page_mapping pager.mem root vaddr named same.symm).trans absent
  cases next : frames with
  | nil => exact absurd enough (by rw [next, List.length_nil]; omega)
  | cons page rest =>
      rw [next, List.length_cons] at enough
      obtain ⟨framed, after, handled, idle, follows, placed⟩ := fault_page root pages supply start pager frames backed errcode vaddr
        page rest next (place_outside pages outside vaddr inPages) notNull (by omega)
      obtain ⟨framedBacked, here, elsewhere⟩ := placed_backed root pages supply start pager frames outside backed vaddr page rest next inPages
        absent framed after idle follows placed
      refine ⟨framed, after.frames, handled, framedBacked, ⟨_, here⟩, fun user userPages entry mapped => ?_⟩
      obtain ⟨_, notDrawn, oldFresh⟩ := backed.backing user userPages entry mapped
      have apart : ¬ SamePage user vaddr := fun sameUser => by
        rw [same_page_mapping pager.mem root vaddr user sameUser, absent] at mapped
        cases mapped
      refine ⟨(elsewhere user (place_outside pages outside user userPages) apart).trans mapped, fun index => ?_⟩
      rw [follows.mem]
      exact placed.kept.words _ (fun drawn => notDrawn (next ▸ List.mem_cons_of_mem page drawn)) oldFresh index

theorem store_backed (place : Place pages) (value entry : BitVec 64) (mapped : mapping pager.mem root place.vaddr = some entry) :
    ∃ mem, store root pager.mem place.vaddr value = some mem ∧
      Backed root pages supply start { pager with mem := mem } frames ∧
      contents root pages { pager with mem := mem } place = some value ∧
      ∀ other, other ≠ place → Keeps (contents root pages) pager { pager with mem := mem } other := by
  obtain ⟨inSupply, notDrawn, fresh⟩ := backed.backing place.vaddr place.inPages entry mapped
  have aligned := frame_aligned entry
  have kept := data_write_kept pager.mem root (frame entry) (wordIndex place.vaddr) value backed.pageable.tree backed.pageable.plain fresh
  have inside := fun user userPages => kept.mapped user (place_outside pages outside user userPages)
  have elsewhere : ∀ page index, Aligned page → page ≠ frame entry →
      Function.update pager.mem (entryAddr (frame entry) (wordIndex place.vaddr)) value (entryAddr page index) =
        pager.mem (entryAddr page index) := fun page index pageAligned apart =>
    write_elsewhere pager.mem _ _ value fun same => apart (entry_addr_inj page (frame entry) index _ pageAligned aligned same).1
  have after : Backed root pages supply start
      { pager with mem := Function.update pager.mem (entryAddr (frame entry) (wordIndex place.vaddr)) value } frames := by
    refine ⟨backed.idle, backed.draws, ⟨kept.tree, kept.plain, ⟨fun page drawn => kept.fresh page (backed.pageable.fresh.fresh page drawn),
      backed.pageable.fresh.distinct⟩, fun page drawn index => ?_⟩, ?_, backed.part, fun user userPages other userMapped => ?_,
      fun user other userPages otherPages one two userMapped otherMapped => ?_, fun user userOutside notPages => ?_, ?_⟩
    · have pageFresh := backed.pageable.fresh.fresh page drawn
      dsimp only
      rw [elsewhere page index (pageFresh.whole ▸ frame_aligned page) fun same => notDrawn (same ▸ drawn)]
      exact backed.pageable.clear page drawn index
    · have same : missing (Function.update pager.mem (entryAddr (frame entry) (wordIndex place.vaddr)) value) root pages =
          missing pager.mem root pages := List.countP_congr fun page member => by rw [kept.mapped page (outside page member)]
      dsimp only
      rw [same]
      exact backed.enough
    · obtain ⟨userSupply, userDrawn, userFresh⟩ := backed.backing user userPages other ((inside user userPages).symm.trans userMapped)
      exact ⟨userSupply, userDrawn, kept.fresh _ userFresh⟩
    · exact backed.apart user other userPages otherPages one two ((inside user userPages).symm.trans userMapped)
        ((inside other otherPages).symm.trans otherMapped)
    · exact (kept.mapped user userOutside).trans (backed.others user userOutside notPages)
    · refine ⟨fun page notSupply pageFresh => kept.fresh page (backed.words.unused page notSupply pageFresh),
        fun page notSupply pageFresh index => ?_⟩
      dsimp only
      rw [elsewhere page index (pageFresh.whole ▸ frame_aligned page) fun same => notSupply (same ▸ inSupply)]
      exact backed.words.words page notSupply pageFresh index
  refine ⟨_, ?_, after, ?_, fun other different word here => ?_⟩
  · rw [store, mapped_load root pages supply start pager frames outside backed place entry mapped, Option.map_some]
  · rw [contents, load, mapped_load root pages supply start _ frames outside after place entry ((inside _ place.inPages).trans mapped),
      Option.map_some]
    exact congrArg some (Function.update_self ..)
  · obtain ⟨otherEntry, otherMapped, read⟩ := contents_mapped root pages supply start pager frames outside backed other word here
    rw [contents, load, mapped_load root pages supply start _ frames outside after other otherEntry
      ((inside _ other.inPages).trans otherMapped), Option.map_some, ← read]
    refine congrArg some (write_elsewhere pager.mem _ _ value fun same => different ?_)
    obtain ⟨sameFrame, sameIndex⟩ := entry_addr_inj _ _ _ _ (frame_aligned otherEntry) aligned same
    exact place_unique pages other place
      (backed.apart other.vaddr place.vaddr other.inPages place.inPages otherEntry entry otherMapped mapped sameFrame) sameIndex

theorem mapped_served (access : Access (Place pages) (BitVec 64)) (entry : BitVec 64)
    (mapped : mapping pager.mem root access.address.vaddr = some entry) :
    ∃ loaded next, attempt root pager (access.map Place.vaddr) = some (loaded, next) ∧ Backed root pages supply start next frames ∧
      Serves (contents root pages) pager access loaded next := by
  cases access with
  | load place =>
      have walked := mapped_load root pages supply start pager frames outside backed place entry mapped
      have loads : load root pager.mem place.vaddr = some (pager.mem (entryAddr (frame entry) (wordIndex place.vaddr))) := by
        rw [load, walked, Option.map_some]
      refine ⟨[_], pager, ?_, backed, ⟨_, rfl, loads⟩, fun _ _ here => here⟩
      rw [Access.map, attempt, loads, Option.map_some]
  | store place value =>
      obtain ⟨mem, stored, after, there, kept⟩ := store_backed root pages supply start pager frames outside backed place value entry mapped
      exact ⟨[], { pager with mem := mem }, by rw [Access.map, attempt, stored, Option.map_some], after, rfl, there, kept⟩

theorem access_served (fuel : Nat) (access : Access (Place pages) (BitVec 64)) :
    ∃ loaded next rest, execute root (fuel + 2) pager (access.map Place.vaddr) = some (loaded, next) ∧
      Backed root pages supply start next rest ∧ Serves (contents root pages) pager access loaded next := by
  cases mapped : mapping pager.mem root access.address.vaddr with
  | some entry =>
      obtain ⟨loaded, next, done, after, served⟩ := mapped_served root pages supply start pager frames outside backed access entry mapped
      exact ⟨loaded, next, frames, by rw [execute, done], after, served⟩
  | none =>
      have inPages := access.address.inPages
      have unwalked : walk pager.mem root access.address.vaddr = none := by
        rw [walk_mapping pager.mem root _ backed.pageable.plain (place_outside pages outside _ inPages), mapped, Option.map_none]
      have faults : attempt root pager (access.map Place.vaddr) = none := by
        cases access with
        | load place => rw [Access.map, attempt, load, show walk pager.mem root place.vaddr = none from unwalked]; rfl
        | store place value => rw [Access.map, attempt, store, show walk pager.mem root place.vaddr = none from unwalked]; rfl
      have address : (access.map Place.vaddr).address = access.address.vaddr := by cases access <;> rfl
      obtain ⟨middle, rest, handled, middleBacked, ⟨entry, middleMapped⟩, kept⟩ := fault_backed root pages supply start pager frames
        outside backed (faultCode (access.map Place.vaddr)) access.address.vaddr inPages access.address.notNull mapped
      obtain ⟨loaded, next, done, after, served⟩ :=
        mapped_served root pages supply start middle rest outside middleBacked access entry middleMapped
      refine ⟨loaded, next, rest, ?_, after, serves_later _ pager middle next access loaded (fun other word here => ?_) served⟩
      · rw [execute, faults]
        dsimp only
        rw [address, handled, Option.bind_some, execute, done]
      · obtain ⟨otherEntry, otherMapped, read⟩ := contents_mapped root pages supply start pager frames outside backed other word here
        obtain ⟨still, words⟩ := kept other.vaddr other.inPages otherEntry otherMapped
        rw [contents, load, mapped_load root pages supply start middle rest outside middleBacked other otherEntry still, Option.map_some,
          words, read]

end

-- No page has been touched before the first access.
theorem untouched_backed (root : Addr) (pages frames : List Addr) (pager : FramedPager) (idle : pager.pfaulting = false)
    (draws : Pmem.Draws pager.lists frames) (pageable : Pageable root ⟨pager.mem, frames⟩) (enough : 4 * pages.length ≤ frames.length)
    (absent : ∀ page ∈ pages, mapping pager.mem root page = none) : Backed root pages frames pager.mem pager frames := by
  have unmapped : ∀ vaddr, InPages pages vaddr → mapping pager.mem root vaddr = none := by
    rintro vaddr ⟨page, member, same⟩
    rw [same_page_mapping pager.mem root page vaddr same, absent page member]
  refine ⟨idle, draws, pageable, (Nat.mul_le_mul_left 4 List.countP_le_length).trans enough, List.Subset.refl _, ?_, ?_,
    fun _ _ _ => rfl, fun _ _ fresh => fresh, fun _ _ _ _ => rfl⟩
  · intro vaddr inPages entry mapped
    cases (unmapped vaddr inPages).symm.trans mapped
  · intro vaddr other inPages _ entry otherEntry mapped
    cases (unmapped vaddr inPages).symm.trans mapped

-- Pages that are made on demand are flat memory: the loads are those of some first contents and the stores since, and what no
-- access names is left as it was.
theorem demand_memory_flat (root : Addr) (pages frames : List Addr) (pager : FramedPager) (fuel : Nat) (idle : pager.pfaulting = false)
    (draws : Pmem.Draws pager.lists frames) (pageable : Pageable root ⟨pager.mem, frames⟩) (enough : 4 * pages.length ≤ frames.length)
    (untouched : ∀ page ∈ pages, OutsideSlot page ∧ mapping pager.mem root page = none)
    (accesses : List (Access (Place pages) (BitVec 64))) :
    ∃ memory final loaded last,
      serve (fun pager access => execute root (fuel + 2) pager (access.map Place.vaddr)) pager accesses = some (loaded, last) ∧
      performAll memory accesses = (final, loaded) ∧
      (∀ place word, load root last.mem place.vaddr = some word → final place = word) ∧ last.pfaulting = false ∧
      (∀ user, OutsideSlot user → ¬ InPages pages user → walk last.mem root user = walk pager.mem root user) ∧
      FramesKept pager.mem last.mem root frames := by
  have outside := fun page member => (untouched page member).1
  have untouchedBacked := untouched_backed root pages frames pager idle draws pageable enough fun page member => (untouched page member).2
  obtain ⟨memory, final, loaded, last, served, ⟨rest, backed⟩, performed, _, agrees⟩ := serve_flat
    (fun pager access => execute root (fuel + 2) pager (access.map Place.vaddr)) (contents root pages)
    (fun state => ∃ rest, Backed root pages frames pager.mem state rest)
    (fun state access inv => inv.elim fun rest backed => by
      obtain ⟨loaded, next, more, done, after, served⟩ := access_served root pages frames pager.mem state rest outside backed fuel access
      exact ⟨loaded, next, done, ⟨more, after⟩, served⟩)
    pager accesses ⟨frames, untouchedBacked⟩
  refine ⟨memory, final, loaded, last, served, performed, agrees, backed.idle, fun user userOutside notPages => ?_, backed.words⟩
  rw [walk_mapping last.mem root user backed.pageable.plain userOutside, backed.others user userOutside notPages,
    walk_mapping pager.mem root user pageable.plain userOutside]

def holedPager : FramedPager := ⟨⟨holedTables, Pmem.setList (fun _ => []) 0 [0x5000, 0x6000, 0x7000, 0x8000]⟩, false⟩

theorem holed_pager_draws : Pmem.Draws holedPager.lists [0x5000, 0x6000, 0x7000, 0x8000] :=
  ⟨_, rfl, _, rfl, _, rfl, _, rfl, trivial⟩

theorem holed_pager_serving : Serving 0x1000 ⟨⟨holedTables, [0x5000, 0x6000, 0x7000, 0x8000]⟩, false⟩ :=
  holed_tables_serving _ (by simp [holedFrames]) (by decide)

theorem holed_pageable : Pageable 0x1000 ⟨holedPager.mem, [0x5000, 0x6000, 0x7000, 0x8000]⟩ where
  tree := holed_pager_serving.tree
  plain := fun _ _ _ _ _ _ _ => holed_tables_huge _
  fresh := holed_pager_serving.fresh
  clear := holed_pager_serving.clear

def holePlace : Place [0x1FF000] := ⟨0x1FF120, ⟨0x1FF000, List.mem_cons_self, rfl⟩, by decide, by decide, .inl (by decide)⟩

theorem hole_is_memory :
    ∃ memory final loaded last,
      serve (fun pager access => execute 0x1000 2 pager (access.map Place.vaddr)) holedPager
        [.load holePlace, .store holePlace 42, .load holePlace] = some (loaded, last) ∧
      performAll memory [.load holePlace, .store holePlace 42, .load holePlace] = (final, loaded) ∧
      (∀ place word, load 0x1000 last.mem place.vaddr = some word → final place = word) ∧ last.pfaulting = false ∧
      (∀ user, OutsideSlot user → ¬ InPages [0x1FF000] user → walk last.mem 0x1000 user = walk holedPager.mem 0x1000 user) ∧
      FramesKept holedPager.mem last.mem 0x1000 [0x5000, 0x6000, 0x7000, 0x8000] :=
  demand_memory_flat 0x1000 [0x1FF000] [0x5000, 0x6000, 0x7000, 0x8000] holedPager 0 rfl holed_pager_draws holed_pageable (by decide)
    (List.forall_mem_singleton.mpr ⟨by decide, by decide⟩) _

end Kraftwerk.Paging
