import Kraftwerk.Lib.Runs
import Kraftwerk.Pmem.AddFreeList
import Mathlib.Data.List.Pairwise

set_option autoImplicit false

namespace Kraftwerk.Pmem

open Cover Runs

structure Allocation where
  start : Addr
  nPages : Nat
deriving DecidableEq

-- The free lists with the results of allocate not yet given back.
structure State where
  lists : FreeLists
  outstanding : List Allocation

inductive Call where
  | allocate (nPages : Nat)
  | free (start : Addr) (nPages : Nat)

-- The NULL of a request for too many pages is no allocation.
def step (state : State) : Call → Option State
  | .allocate nPages =>
      (allocate nPages state.lists).map fun (start, lists) =>
        ⟨lists, if 2 ^ allocMaxOrder < nPages then state.outstanding else ⟨start, nPages⟩ :: state.outstanding⟩
  | .free start nPages =>
      (free start nPages state.lists).map fun lists => ⟨lists, state.outstanding.erase ⟨start, nPages⟩⟩

def allocationBlock (allocation : Allocation) : Block := (getAllocOrder allocation.nPages, allocation.start)

def handedOut (state : State) : List Block := state.outstanding.map allocationBlock

def framesOf (blocks : List Block) : Set Nat := {frame | ∃ block ∈ blocks, frame * 4096 ∈ bytes block}

def PairwiseDisjoint (blocks : List Block) : Prop := blocks.Pairwise (fun a b => Disjoint (bytes a) (bytes b))

structure WellFormed (lists : FreeLists) : Prop where
  aligned : AllListed Aligned lists
  disjoint : PairwiseDisjoint (listed lists)

structure Safe (initial : FreeLists) (state : State) : Prop where
  wellFormed : WellFormed state.lists
  outstandingDisjoint : PairwiseDisjoint (handedOut state)
  apart : ∀ taken ∈ handedOut state, ∀ block ∈ listed state.lists, Disjoint (bytes taken) (bytes block)
  conserved : framesOf (listed state.lists) ∪ framesOf (handedOut state) = framesOf (listed initial)

def Allowed (state : State) : Call → Prop
  | .allocate nPages => nPages ≤ 2 ^ allocMaxOrder ∧
      ∃ source, getAllocOrder nPages ≤ source ∧ source ≤ allocMaxOrder ∧ state.lists source ≠ []
  | .free start nPages => ⟨start, nPages⟩ ∈ state.outstanding

-- A free that merges through every order up to ALLOC_MAX_ORDER, where the block
-- is linked without align_block, starts from the lower half of the top block.
def TopMergeAtLowerHalf (state : State) : Call → Prop
  | .allocate _ => True
  | .free start nPages => getAllocOrder nPages < allocMaxOrder →
      (∀ order, getAllocOrder nPages ≤ order → order < allocMaxOrder → buddyAt start order ∈ state.lists order) →
      alignBlock start (allocMaxOrder - 1) = alignBlock start allocMaxOrder

-- Every byte is on the lists or handed out as often as it was listed at the start.
structure Conserving (initial : FreeLists) (state : State) : Prop where
  once : ∀ byte, freeCover initial byte ≤ 1
  aligned : AllListed Aligned state.lists
  taken : ∀ allocation ∈ state.outstanding,
    allocation.nPages ≤ 2 ^ allocMaxOrder ∧ Aligned (allocationBlock allocation)
  conserved : ∀ byte, freeCover state.lists byte + cover bytes (handedOut state) byte = freeCover initial byte

theorem well_formed_once (lists : FreeLists) (wellFormed : WellFormed lists) (byte : Nat) : freeCover lists byte ≤ 1 :=
  (pairwise_disjoint_iff bytes (listed lists)).mp wellFormed.disjoint byte

theorem listed_disjoint (lists : FreeLists) (wellFormed : WellFormed lists) (a b : Block) (memberA : a ∈ listed lists)
    (memberB : b ∈ listed lists) (different : a ≠ b) : Disjoint (bytes a) (bytes b) := by
  have symmetric : Std.Symm (fun a b : Block => Disjoint (bytes a) (bytes b)) := ⟨fun _ _ apart => apart.symm⟩
  exact wellFormed.disjoint.forall memberA memberB different

theorem listed_aligned (lists : FreeLists) (wellFormed : WellFormed lists) (block : Block) (member : block ∈ listed lists) :
    Aligned block := by
  obtain ⟨small, found⟩ := (mem_listed lists block).mp member
  exact wellFormed.aligned block.1 small block.2 found

theorem single_well_formed (order : Nat) (start : Addr) (small : order ≤ allocMaxOrder) (aligned : Aligned (order, start)) :
    WellFormed (single order start) where
  aligned := single_aligned order start aligned
  disjoint := by
    refine (pairwise_disjoint_iff bytes _).mpr (fun byte => ?_)
    have link := free_cover_link (fun _ => []) order start byte small
    rw [cover_cons, cover_nil, free_cover_empty] at link
    unfold freeCover at link
    rw [single, link]
    split <;> omega

theorem conserving_initial (initial : FreeLists) (wellFormed : WellFormed initial) : Conserving initial ⟨initial, []⟩ where
  once := well_formed_once initial wellFormed
  aligned := wellFormed.aligned
  taken := by simp
  conserved := by simp [handedOut]

theorem conserving_covers (initial : FreeLists) (state : State) (inv : Conserving initial state) (byte : Nat) :
    cover bytes (listed state.lists ++ handedOut state) byte = freeCover initial byte := by
  rw [cover_append]
  exact inv.conserved byte

theorem conserving_safe (initial : FreeLists) (state : State) (inv : Conserving initial state) : Safe initial state := by
  have all : PairwiseDisjoint (listed state.lists ++ handedOut state) := by
    refine (pairwise_disjoint_iff bytes _).mpr (fun byte => ?_)
    rw [conserving_covers initial state inv byte]
    exact inv.once byte
  obtain ⟨freeDisjoint, takenDisjoint, apart⟩ := List.pairwise_append.mp all
  refine ⟨⟨inv.aligned, freeDisjoint⟩, takenDisjoint, fun taken member block listedBlock =>
    (apart block listedBlock taken member).symm, ?_⟩
  ext frame
  have total := conserving_covers initial state inv (frame * 4096)
  have before := cover_pos_iff bytes (listed state.lists ++ handedOut state) (frame * 4096)
  have after := cover_pos_iff bytes (listed initial) (frame * 4096)
  rw [total] at before
  simp only [framesOf, Set.mem_union, Set.mem_ofPred_eq]
  rw [← after]
  refine Iff.trans ?_ before.symm
  simp only [List.mem_append, or_and_right, exists_or]

theorem conserving_allocate (initial : FreeLists) (state : State) (nPages : Nat) (inv : Conserving initial state)
    (allowed : Allowed state (.allocate nPages)) :
    ∃ next, step state (.allocate nPages) = some next ∧ Conserving initial next := by
  obtain ⟨fits, supply⟩ := allowed
  obtain ⟨start, lists, done⟩ := allocate_returns nPages state.lists fits supply
  obtain ⟨aligned, startAligned⟩ :=
    allocate_all Aligned aligned_split_closed nPages state.lists lists start fits inv.aligned done
  refine ⟨⟨lists, ⟨start, nPages⟩ :: state.outstanding⟩, ?_, inv.once, aligned, ?_, ?_⟩
  · have few : ¬ 2 ^ allocMaxOrder < nPages := by omega
    simp only [step, done, Option.map_some, if_neg few]
  · simp only [List.forall_mem_cons]
    exact ⟨⟨fits, startAligned⟩, inv.taken⟩
  · intro byte
    have moved := allocate_cover nPages state.lists lists start byte fits inv.aligned done
    have before := inv.conserved byte
    have out : cover bytes (handedOut ⟨lists, ⟨start, nPages⟩ :: state.outstanding⟩) byte =
        cover bytes [(getAllocOrder nPages, start)] byte + cover bytes (handedOut state) byte :=
      cover_append bytes [(getAllocOrder nPages, start)] (handedOut state) byte
    simp only at out ⊢
    omega

theorem lands_aligned_of_lower_half (state : State) (start : Addr) (nPages : Nat) (fits : nPages ≤ 2 ^ allocMaxOrder)
    (aligned : Aligned (getAllocOrder nPages, start)) (guard : TopMergeAtLowerHalf state (.free start nPages)) :
    LandsAligned start (getAllocOrder nPages) state.lists := by
  have small := get_alloc_order_le nPages fits
  intro passes
  rw [landing, if_neg (Nat.lt_irrefl _)]
  by_cases below : getAllocOrder nPages < allocMaxOrder
  · rw [if_pos below, guard below passes]
    exact align_block_aligned start allocMaxOrder (Nat.le_refl _)
  · rw [if_neg below, show allocMaxOrder = getAllocOrder nPages by omega]
    exact aligned

theorem conserving_free (initial : FreeLists) (state : State) (start : Addr) (nPages : Nat) (inv : Conserving initial state)
    (allowed : Allowed state (.free start nPages)) (guard : TopMergeAtLowerHalf state (.free start nPages)) :
    ∃ next, step state (.free start nPages) = some next ∧ Conserving initial next := by
  obtain ⟨fits, aligned⟩ := inv.taken ⟨start, nPages⟩ allowed
  have small := get_alloc_order_le nPages fits
  have lands := lands_aligned_of_lower_half state start nPages fits aligned guard
  refine ⟨⟨addFreeListAt (allocMaxOrder - getAllocOrder nPages) (getAllocOrder nPages) start state.lists,
    state.outstanding.erase ⟨start, nPages⟩⟩, ?_, inv.once, ?_, ?_, ?_⟩
  · simp only [step, free, addFreeList, if_neg (Nat.not_lt.mpr small), Option.map_some]
  · exact add_free_list_aligned _ _ _ _ (by omega) inv.aligned lands
  · exact fun allocation member => inv.taken allocation (List.mem_of_mem_erase member)
  · intro byte
    have added := add_free_list_cover (allocMaxOrder - getAllocOrder nPages) (getAllocOrder nPages) start state.lists byte
      (by omega) lands
    have back : placed start (getAllocOrder nPages) = start := by
      unfold placed
      split
      · exact align_block_of_aligned start _ small aligned
      · rfl
    have before := inv.conserved byte
    have sameBlocks : (handedOut state).Perm
        ((getAllocOrder nPages, start) :: (state.outstanding.erase ⟨start, nPages⟩).map allocationBlock) :=
      (List.perm_cons_erase allowed).map allocationBlock
    have out := cover_append bytes [(getAllocOrder nPages, start)]
      ((state.outstanding.erase ⟨start, nPages⟩).map allocationBlock) byte
    rw [cover_perm bytes _ _ byte sameBlocks] at before
    rw [List.singleton_append] at out
    rw [added, back]
    simp only [handedOut]
    omega

theorem conserving_step (initial : FreeLists) (state : State) (call : Call) (inv : Conserving initial state)
    (guard : Allowed state call ∧ TopMergeAtLowerHalf state call) :
    ∃ next, step state call = some next ∧ Conserving initial next := by
  cases call with
  | allocate nPages => exact conserving_allocate initial state nPages inv guard.1
  | free start nPages => exact conserving_free initial state start nPages inv guard.1 guard.2

-- A merge to the top from the upper half lists a block that is not aligned.
theorem upper_merge_breaks (state next : State) (call : Call) (stepped : step state call = some next)
    (wellFormed : WellFormed next.lists) : TopMergeAtLowerHalf state call := by
  cases call with
  | allocate nPages => trivial
  | free start nPages =>
      intro below passes
      simp only [step, free, addFreeList, if_neg (Nat.not_lt.mpr (Nat.le_of_lt below)), Option.map_some,
        Option.some.injEq] at stepped
      subst stepped
      obtain ⟨top, low, high, _, stops, result⟩ := add_free_list_lands (allocMaxOrder - getAllocOrder nPages)
        (getAllocOrder nPages) start state.lists (by omega)
      obtain rfl : top = allocMaxOrder := by
        by_contra different
        exact stops (by omega) (passes top low (by omega))
      have topList := result allocMaxOrder
      rw [if_neg (by omega), if_pos rfl, landing, if_neg (Nat.lt_irrefl _), if_pos below] at topList
      have aligned : Aligned (allocMaxOrder, alignBlock start (allocMaxOrder - 1)) :=
        wellFormed.aligned allocMaxOrder (Nat.le_refl _) _ (by simp [topList])
      rw [← align_block_of_aligned _ allocMaxOrder (Nat.le_refl _) aligned]
      exact align_block_align_block start _ _ (by omega) (Nat.le_refl _)

theorem buddy_runs_safe_iff (initial : FreeLists) (wellFormed : WellFormed initial) (calls : List Call)
    (allowed : Along step Allowed ⟨initial, []⟩ calls) :
    Visits step (Safe initial) ⟨initial, []⟩ calls ↔ Along step TopMergeAtLowerHalf ⟨initial, []⟩ calls := by
  constructor
  · exact along_of_visits step Allowed TopMergeAtLowerHalf (Safe initial)
      (fun state call next _ _ stepped safe => upper_merge_breaks state next call stepped safe.wellFormed) _ calls allowed
  · intro guarded
    have kept := visits_of_along step _ (Conserving initial) (conserving_step initial) _ calls
      (conserving_initial initial wellFormed) (along_and step _ _ _ calls allowed guarded)
    exact visits_mono step _ _ _ calls (conserving_safe initial) kept

-- One free gigabyte at address 0, of which the upper half is taken and freed.
def gigabyte : FreeLists := fun order => if order = allocMaxOrder then [0] else []

def halfAndBack : List Call := [.allocate 131072, .free 0x20000000 131072]

theorem gigabyte_well_formed : WellFormed gigabyte := by
  have same : gigabyte = single allocMaxOrder 0 := by
    funext order
    rw [gigabyte, single, setList, Function.update_apply]
  exact same ▸ single_well_formed allocMaxOrder 0 (Nat.le_refl _) (Nat.dvd_zero _)

theorem half_and_back_allowed : Along step Allowed ⟨gigabyte, []⟩ halfAndBack := by
  refine ⟨⟨by decide, allocMaxOrder, by decide, Nat.le_refl _, by decide⟩, fun next stepped => ⟨?_, fun _ _ => trivial⟩⟩
  have taken : (step ⟨gigabyte, []⟩ (.allocate 131072)).map State.outstanding = some [⟨0x20000000, 131072⟩] := by decide
  rw [stepped] at taken
  have outstanding : next.outstanding = [⟨0x20000000, 131072⟩] := Option.some.inj taken
  simp [Allowed, outstanding]

theorem half_and_back_safe_iff :
    Visits step (Safe gigabyte) ⟨gigabyte, []⟩ halfAndBack ↔ Along step TopMergeAtLowerHalf ⟨gigabyte, []⟩ halfAndBack :=
  buddy_runs_safe_iff gigabyte gigabyte_well_formed halfAndBack half_and_back_allowed

-- The upper half is merged in place, so free_lists[18] holds a block that starts
-- at 0x20000000 and reaches half a gigabyte past the memory there was.
theorem half_and_back_unsafe :
    WellFormed gigabyte ∧ Along step Allowed ⟨gigabyte, []⟩ halfAndBack ∧
      ¬ Visits step (Safe gigabyte) ⟨gigabyte, []⟩ halfAndBack := by
  refine ⟨gigabyte_well_formed, half_and_back_allowed, fun visits => ?_⟩
  obtain ⟨last, finished, safe⟩ := visits_run step _ _ _ visits
  have top : (run step ⟨gigabyte, []⟩ halfAndBack).map (fun state => state.lists allocMaxOrder) = some [0x20000000] := by decide
  rw [finished] at top
  have aligned := safe.wellFormed.aligned allocMaxOrder (Nat.le_refl _) 0x20000000 (by simp [Option.some.inj top])
  have misaligned : ¬ 2 ^ 30 ∣ 0x20000000 := by decide
  exact misaligned aligned

end Kraftwerk.Pmem
