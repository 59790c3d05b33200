import Kraftwerk.Pmem.FrameSupply
import Kraftwerk.Pmem.ReserveExact

set_option autoImplicit false

-- Runs of allocate, free and reserve, with is_allocated asked in every state.
namespace Kraftwerk.Pmem

open Cover Runs

-- The free lists with what allocate has handed out and what reserve has taken.
structure Ledger where
  lists : FreeLists
  outstanding : List Allocation
  reserved : List Allocation

inductive OwnerCall where
  | allocate (nPages : Nat)
  | free (start : Addr) (nPages : Nat)
  | reserve (whereAddr : Addr) (nPages : Nat)

def Ledger.state (ledger : Ledger) : State := ⟨ledger.lists, ledger.outstanding⟩

def ownerStep (ledger : Ledger) : OwnerCall → Option Ledger
  | .allocate nPages =>
      (step ledger.state (.allocate nPages)).map fun state => { ledger with lists := state.lists, outstanding := state.outstanding }
  | .free start nPages =>
      (step ledger.state (.free start nPages)).map fun state => { ledger with lists := state.lists, outstanding := state.outstanding }
  | .reserve whereAddr nPages =>
      match reserve whereAddr nPages ledger.lists with
      | .ok (true, lists) => some { ledger with lists := lists, reserved := ⟨whereAddr, nPages⟩ :: ledger.reserved }
      | .ok (false, lists) => some { ledger with lists := lists }
      | .error _ => none

def reservedBlock (request : Allocation) : Block := requestBlock request.start request.nPages

def ownedBlocks (ledger : Ledger) : List Block := ledger.outstanding.map allocationBlock ++ ledger.reserved.map reservedBlock

-- A request that no larger free block holds, unless its own block is free.
def OwnerAllowed (ledger : Ledger) : OwnerCall → Prop
  | .allocate nPages => Allowed ledger.state (.allocate nPages)
  | .free start nPages => Allowed ledger.state (.free start nPages) ∧ TopMergeAtLowerHalf ledger.state (.free start nPages)
  | .reserve whereAddr nPages => nPages ≤ 2 ^ allocMaxOrder ∧ (BlockListed whereAddr ledger.lists (getAllocOrder nPages) ∨
      ¬ ParentListed whereAddr ledger.lists (getAllocOrder nPages))

-- Every frame has one owner, and neither is_allocated nor reserve takes an address in owned memory for a free one.
structure Accounted (initial : FreeLists) (ledger : Ledger) : Prop where
  wellFormed : WellFormed ledger.lists
  apart : PairwiseDisjoint (listed ledger.lists ++ ownedBlocks ledger)
  conserved : framesOf (listed ledger.lists) ∪ framesOf (ownedBlocks ledger) = framesOf (listed initial)
  seen : ∀ address : Addr, (∃ block ∈ ownedBlocks ledger, address.toNat ∈ bytes block) → ∀ nPages ≤ 2 ^ allocMaxOrder,
    isAllocated address nPages ledger.lists = .ok true ∧ reserve address nPages ledger.lists = .ok (false, ledger.lists)

-- Every byte is on the lists or owned as often as it was listed at the start.
structure Balanced (initial : FreeLists) (ledger : Ledger) : Prop where
  once : ∀ byte, freeCover initial byte ≤ 1
  aligned : AllListed Aligned ledger.lists
  taken : ∀ allocation ∈ ledger.outstanding, allocation.nPages ≤ 2 ^ allocMaxOrder ∧ Aligned (allocationBlock allocation)
  balance : ∀ byte, freeCover ledger.lists byte + cover bytes (ownedBlocks ledger) byte = freeCover initial byte

section
variable (initial : FreeLists) (ledger : Ledger)

theorem unlisted_address (lists : FreeLists) (address : Addr) (apart : ∀ block ∈ listed lists, address.toNat ∉ bytes block) (order : Nat)
    (small : order ≤ allocMaxOrder) : ¬ BlockListed address lists order := by
  intro found
  have member := (mem_listed lists (order, alignBlock address order)).mpr ⟨small, found⟩
  refine apart _ member ?_
  rw [align_block_points address order small]
  exact in_own_block address order

theorem owned_seen (lists : FreeLists) (address : Addr) (nPages : Nat) (fits : nPages ≤ 2 ^ allocMaxOrder)
    (apart : ∀ block ∈ listed lists, address.toNat ∉ bytes block) :
    isAllocated address nPages lists = .ok true ∧ reserve address nPages lists = .ok (false, lists) := by
  have small := get_alloc_order_le nPages fits
  have unlisted := unlisted_address lists address apart
  have noParent : ¬ ParentListed address lists (getAllocOrder nPages) := by
    rintro ⟨i, member, found⟩
    exact unlisted i (Nat.le_of_lt ((mem_higher_orders _ i).mp member).2) found
  constructor
  · obtain ⟨own | parent, _⟩ | ⟨_, _, taken⟩ := is_allocated_cases address lists nPages small
    · exact absurd own (unlisted _ small)
    · exact absurd parent noParent
    · exact taken
  · obtain ⟨own, _⟩ | ⟨_, ⟨_, refused⟩ | ⟨⟨i, member, found, _⟩, _⟩ | ⟨parent, _⟩⟩ := reserve_cases address lists nPages small
    · exact absurd own (unlisted _ small)
    · exact refused
    · exact absurd ⟨i, member, found⟩ noParent
    · exact absurd parent noParent

theorem balanced_accounted (balanced : Balanced initial ledger) : Accounted initial ledger := by
  have covers : ∀ byte, cover bytes (listed ledger.lists ++ ownedBlocks ledger) byte = freeCover initial byte := by
    intro byte
    rw [cover_append]
    exact balanced.balance byte
  have all : PairwiseDisjoint (listed ledger.lists ++ ownedBlocks ledger) := (pairwise_disjoint_iff bytes _).mpr fun byte => by
    rw [covers]
    exact balanced.once byte
  obtain ⟨freeDisjoint, _, apart⟩ := List.pairwise_append.mp all
  refine ⟨⟨balanced.aligned, freeDisjoint⟩, all, ?_, ?_⟩
  · ext frame
    have before := cover_pos_iff bytes (listed ledger.lists ++ ownedBlocks ledger) (frame * 4096)
    have after := cover_pos_iff bytes (listed initial) (frame * 4096)
    rw [covers] at before
    simp only [framesOf, Set.mem_union, Set.mem_ofPred_eq]
    rw [← after]
    refine Iff.trans ?_ before.symm
    simp only [List.mem_append, or_and_right, exists_or]
  · rintro address ⟨owned, ownedMember, inside⟩ nPages fits
    refine owned_seen ledger.lists address nPages fits fun block member listedInside => ?_
    exact Set.disjoint_left.mp (apart block member owned ownedMember) listedInside inside

theorem balanced_allocate (balanced : Balanced initial ledger) (nPages : Nat) (allowed : OwnerAllowed ledger (.allocate nPages)) :
    ∃ next, ownerStep ledger (.allocate nPages) = some next ∧ Balanced initial next := by
  obtain ⟨fits, supply⟩ := allowed
  obtain ⟨start, lists, done⟩ := allocate_returns nPages ledger.lists fits supply
  obtain ⟨aligned, startAligned⟩ :=
    allocate_all Aligned aligned_split_closed nPages ledger.lists lists start fits balanced.aligned done
  refine ⟨⟨lists, ⟨start, nPages⟩ :: ledger.outstanding, ledger.reserved⟩, ?_, balanced.once, aligned,
    List.forall_mem_cons.mpr ⟨⟨fits, startAligned⟩, balanced.taken⟩, fun byte => ?_⟩
  · have few : ¬ 2 ^ allocMaxOrder < nPages := Nat.not_lt.mpr fits
    simp only [ownerStep, step, Ledger.state, done, Option.map_some, if_neg few]
  · have moved := allocate_cover nPages ledger.lists lists start byte fits balanced.aligned done
    have before := balanced.balance byte
    simp only [ownedBlocks, List.map_cons, List.cons_append, cover_cons, cover_nil, allocationBlock] at moved before ⊢
    omega

theorem balanced_free (balanced : Balanced initial ledger) (start : Addr) (nPages : Nat)
    (allowed : OwnerAllowed ledger (.free start nPages)) :
    ∃ next, ownerStep ledger (.free start nPages) = some next ∧ Balanced initial next := by
  obtain ⟨held, guard⟩ := allowed
  obtain ⟨fits, startAligned⟩ := balanced.taken ⟨start, nPages⟩ held
  obtain ⟨lists, done, aligned, covers⟩ := freed_cover ledger.state start nPages fits balanced.aligned startAligned guard
  refine ⟨⟨lists, ledger.outstanding.erase ⟨start, nPages⟩, ledger.reserved⟩, ?_, balanced.once, aligned,
    fun allocation member => balanced.taken allocation (List.mem_of_mem_erase member), fun byte => ?_⟩
  · have freed : free start nPages ledger.lists = some lists := done
    simp only [ownerStep, step, Ledger.state, freed, Option.map_some]
  · have before := balanced.balance byte
    have whole : freeCover lists byte = freeCover ledger.lists byte + cover bytes [(getAllocOrder nPages, start)] byte := covers byte
    have sameBlocks : (ownedBlocks ledger).Perm
        ((getAllocOrder nPages, start) :: ownedBlocks ⟨lists, ledger.outstanding.erase ⟨start, nPages⟩, ledger.reserved⟩) :=
      ((List.perm_cons_erase held).map allocationBlock).append_right _
    rw [cover_perm bytes _ _ byte sameBlocks, cover_cons] at before
    rw [cover_cons, cover_nil] at whole
    dsimp only
    omega

theorem balanced_reserve (balanced : Balanced initial ledger) (whereAddr : Addr) (nPages : Nat)
    (allowed : OwnerAllowed ledger (.reserve whereAddr nPages)) :
    ∃ next, ownerStep ledger (.reserve whereAddr nPages) = some next ∧ Balanced initial next := by
  obtain ⟨fits, alone⟩ := allowed
  have small := get_alloc_order_le nPages fits
  obtain ⟨own, done⟩ | ⟨unlisted, rest⟩ := reserve_cases whereAddr ledger.lists nPages small
  · refine ⟨⟨setList ledger.lists (getAllocOrder nPages)
        ((ledger.lists (getAllocOrder nPages)).erase (alignBlock whereAddr (getAllocOrder nPages))), ledger.outstanding,
      ⟨whereAddr, nPages⟩ :: ledger.reserved⟩, by simp only [ownerStep, done], balanced.once, ?_, balanced.taken, fun byte => ?_⟩
    · exact all_listed_set Aligned ledger.lists _ _ balanced.aligned fun other member =>
        balanced.aligned _ small other (List.mem_of_mem_erase member)
    · have unlink := free_cover_unlink ledger.lists _ _ byte small own
      have before := balanced.balance byte
      simp only [ownedBlocks, List.map_cons, reservedBlock, requestBlock, cover_append, cover_cons, cover_nil] at unlink before ⊢
      omega
  · have noParent := alone.resolve_left unlisted
    obtain ⟨_, refused⟩ | ⟨⟨i, member, found, _⟩, _⟩ | ⟨parent, _⟩ := rest
    · exact ⟨ledger, by simp only [ownerStep, refused], balanced⟩
    · exact absurd ⟨i, member, found⟩ noParent
    · exact absurd parent noParent

theorem balanced_step (balanced : Balanced initial ledger) (call : OwnerCall) (allowed : OwnerAllowed ledger call) :
    ∃ next, ownerStep ledger call = some next ∧ Balanced initial next := by
  cases call with
  | allocate nPages => exact balanced_allocate initial ledger balanced nPages allowed
  | free start nPages => exact balanced_free initial ledger balanced start nPages allowed
  | reserve whereAddr nPages => exact balanced_reserve initial ledger balanced whereAddr nPages allowed

end

theorem ownership_runs_accounted (initial : FreeLists) (wellFormed : WellFormed initial) (calls : List OwnerCall)
    (along : Along ownerStep OwnerAllowed ⟨initial, [], []⟩ calls) : Visits ownerStep (Accounted initial) ⟨initial, [], []⟩ calls := by
  have start : Balanced initial ⟨initial, [], []⟩ :=
    ⟨well_formed_once initial wellFormed, wellFormed.aligned, fun _ member => absurd member List.not_mem_nil, fun _ => rfl⟩
  exact visits_mono ownerStep (Balanced initial) (Accounted initial) _ calls (balanced_accounted initial)
    (visits_of_along ownerStep OwnerAllowed (Balanced initial) (fun ledger call balanced => balanced_step initial ledger balanced call)
      _ calls start along)

theorem pair_reserved_accounted :
    Visits ownerStep (Accounted (single 1 0x4000)) ⟨single 1 0x4000, [], []⟩ [.reserve 0x4000 2] :=
  ownership_runs_accounted (single 1 0x4000) (single_well_formed 1 0x4000 (by decide) ⟨2, rfl⟩) [.reserve 0x4000 2]
    ⟨⟨by decide, .inl (by decide)⟩, fun _ _ => trivial⟩

end Kraftwerk.Pmem
