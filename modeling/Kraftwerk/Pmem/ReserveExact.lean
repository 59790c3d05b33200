import Kraftwerk.Pmem.BuddyRuns
import Kraftwerk.Pmem.Reserve

set_option autoImplicit false

-- What reserve and is_allocated should say of the free memory, and when they do.
namespace Kraftwerk.Pmem

open Cover

-- [where, where + n * 4096), as far as there are addresses.
def requestBytes (whereAddr : Addr) (nPages : Nat) : Set Nat :=
  {byte | whereAddr.toNat ≤ byte ∧ byte < whereAddr.toNat + nPages * 4096 ∧ byte < 2 ^ 64}

def requestBlock (whereAddr : Addr) (nPages : Nat) : Block :=
  (getAllocOrder nPages, alignBlock whereAddr (getAllocOrder nPages))

-- Nothing of the request is left free; what is gone are aligned blocks that cover the
-- request, each of which meets it.
structure Removed (before after : FreeLists) (whereAddr : Addr) (nPages : Nat) : Prop where
  wellFormed : WellFormed after
  apart : ∀ block ∈ listed after, Disjoint (bytes block) (requestBytes whereAddr nPages)
  exactly : ∃ taken : List Block,
    (∀ block ∈ taken, block.1 ≤ allocMaxOrder ∧ Aligned block ∧ ¬ Disjoint (bytes block) (requestBytes whereAddr nPages)) ∧
    requestBytes whereAddr nPages ⊆ {byte | ∃ block ∈ taken, byte ∈ bytes block} ∧
    freeBytes after = freeBytes before \ {byte | ∃ block ∈ taken, byte ∈ bytes block}

structure ReserveExact (lists : FreeLists) (whereAddr : Addr) (nPages : Nat) : Prop where
  terminates : ∃ result, reserve whereAddr nPages lists = .ok result
  removes : ∀ after, reserve whereAddr nPages lists = .ok (true, after) → Removed lists after whereAddr nPages
  succeeds : (∃ block ∈ listed lists, bytes (requestBlock whereAddr nPages) ⊆ bytes block) →
    ∃ after, reserve whereAddr nPages lists = .ok (true, after)

-- Either the block of the request's own order is listed and no free byte of the request lies
-- outside of it, or no block around the address is listed at that or a higher order.
def ReserveMeets (lists : FreeLists) (whereAddr : Addr) (nPages : Nat) : Prop :=
  (BlockListed whereAddr lists (getAllocOrder nPages) ∧
    ∀ byte ∈ requestBytes whereAddr nPages, byte ∈ freeBytes lists → byte ∈ bytes (requestBlock whereAddr nPages)) ∨
  ∀ i, getAllocOrder nPages ≤ i → i ≤ allocMaxOrder → ¬ BlockListed whereAddr lists i

theorem in_own_block (start : Addr) (order : Nat) : start.toNat ∈ Dyadic.points (dyadic (order, start)) := rfl

theorem align_block_points (start : Addr) (order : Nat) (small : order ≤ allocMaxOrder) :
    bytes (order, alignBlock start order) = Dyadic.points (dyadic (order, start)) := by
  rw [bytes_eq_points _ (align_block_aligned start order small), align_block_dyadic start order small]

section
variable (lists : FreeLists) (whereAddr : Addr) (nPages : Nat)

theorem contains_request_iff (i : Nat) (start : Addr) (small : getAllocOrder nPages ≤ allocMaxOrder) (inRange : i ≤ allocMaxOrder)
    (aligned : Aligned (i, start)) :
    bytes (requestBlock whereAddr nPages) ⊆ bytes (i, start) ↔ getAllocOrder nPages ≤ i ∧ start = alignBlock whereAddr i := by
  rw [requestBlock, align_block_points _ _ small]
  constructor
  · intro inside
    rw [bytes_eq_points _ aligned] at inside
    have order := Dyadic.order_le_of_subset _ _ inside
    have same := Dyadic.same_order_same_point (dyadic (i, start)) (dyadic (i, whereAddr)) whereAddr.toNat rfl
      (inside (in_own_block whereAddr _)) (in_own_block whereAddr i)
    rw [← align_block_dyadic whereAddr i inRange] at same
    exact ⟨Nat.le_of_add_le_add_right order,
      eq_of_dyadic_eq i start _ aligned (align_block_aligned whereAddr i inRange) same⟩
  · rintro ⟨above, rfl⟩
    rw [align_block_points _ _ inRange]
    exact Dyadic.subset_of_meets _ _ whereAddr.toNat (Nat.add_le_add_right above 12) (in_own_block whereAddr _)
      (in_own_block whereAddr i)

theorem containing_block_iff (aligned : AllListed Aligned lists) (small : getAllocOrder nPages ≤ allocMaxOrder) :
    (∃ block ∈ listed lists, bytes (requestBlock whereAddr nPages) ⊆ bytes block) ↔
      ∃ i, getAllocOrder nPages ≤ i ∧ i ≤ allocMaxOrder ∧ BlockListed whereAddr lists i := by
  constructor
  · rintro ⟨⟨i, start⟩, member, inside⟩
    obtain ⟨inRange, found⟩ := (mem_listed lists _).mp member
    obtain ⟨above, rfl⟩ :=
      (contains_request_iff whereAddr nPages i start small inRange (aligned i inRange start found)).mp inside
    exact ⟨i, above, inRange, found⟩
  · rintro ⟨i, above, inRange, found⟩
    exact ⟨(i, alignBlock whereAddr i), (mem_listed lists _).mpr ⟨inRange, found⟩,
      (contains_request_iff whereAddr nPages i _ small inRange (aligned i inRange _ found)).mpr ⟨above, rfl⟩⟩

theorem unlink_well_formed (order : Nat) (start : Addr) (wellFormed : WellFormed lists) (small : order ≤ allocMaxOrder)
    (found : start ∈ lists order) :
    WellFormed (setList lists order ((lists order).erase start)) ∧
      freeBytes (setList lists order ((lists order).erase start)) = freeBytes lists \ bytes (order, start) := by
  have once := well_formed_once lists wellFormed
  have unlink := fun byte => free_cover_unlink lists order start byte small found
  refine ⟨⟨?_, ?_⟩, ?_⟩
  · exact all_listed_set Aligned lists order _ wellFormed.aligned fun other member =>
      wellFormed.aligned order small other (List.mem_of_mem_erase member)
  · refine (pairwise_disjoint_iff bytes _).mpr (fun byte => ?_)
    have before := once byte
    have change := unlink byte
    unfold freeCover at before change
    omega
  · ext byte
    have before := once byte
    have change := unlink byte
    rw [cover_cons, cover_nil] at change
    rw [Set.mem_sdiff, mem_free_bytes, mem_free_bytes]
    by_cases inside : byte ∈ bytes (order, start)
    · rw [if_pos inside] at change
      simp only [inside, not_true_eq_false, and_false, iff_false]
      omega
    · rw [if_neg inside] at change
      simp only [inside, not_false_eq_true, and_true]
      omega

theorem page_start (page : Nat) (inSpace : whereAddr.toNat + page * 4096 < 2 ^ 64) :
    (whereAddr + BitVec.ofNat 64 (page * 4096)).toNat = whereAddr.toNat + page * 4096 := by
  rw [BitVec.toNat_add, BitVec.toNat_ofNat]
  omega

-- The pages of the request, as blocks of order 0.
def requestPages : List Block :=
  ((List.range nPages).filter (fun page => whereAddr.toNat + page * 4096 < 2 ^ 64)).map
    (fun page => (0, whereAddr + BitVec.ofNat 64 (page * 4096)))

theorem mem_request_pages (block : Block) (member : block ∈ requestPages whereAddr nPages) :
    block.1 = 0 ∧ ∃ page < nPages, block.2.toNat = whereAddr.toNat + page * 4096 := by
  obtain ⟨page, filtered, rfl⟩ := List.mem_map.mp member
  obtain ⟨inRange, inSpace⟩ := List.mem_filter.mp filtered
  exact ⟨rfl, page, List.mem_range.mp inRange, page_start whereAddr page (of_decide_eq_true inSpace)⟩

theorem request_page_aligned (block : Block) (aligned : Aligned (0, whereAddr))
    (member : block ∈ requestPages whereAddr nPages) : Aligned block := by
  obtain ⟨order, start⟩ := block
  obtain ⟨rfl, page, _, startEq⟩ := mem_request_pages whereAddr nPages _ member
  simp only [Aligned, startEq] at aligned ⊢
  exact Nat.dvd_add aligned (Nat.dvd_mul_left _ page)

theorem request_page_inside (block : Block) (aligned : Aligned (0, whereAddr))
    (member : block ∈ requestPages whereAddr nPages) : bytes block ⊆ requestBytes whereAddr nPages := by
  have blockAligned := request_page_aligned whereAddr nPages block aligned member
  obtain ⟨order, start⟩ := block
  obtain ⟨rfl, page, few, startEq⟩ := mem_request_pages whereAddr nPages _ member
  have inSpace := start.isLt
  simp only [Aligned] at blockAligned startEq
  intro byte inside
  simp only [bytes, requestBytes, Set.mem_ofPred_eq] at inside ⊢
  omega

theorem request_pages_cover (byte : Nat) (inside : byte ∈ requestBytes whereAddr nPages) :
    ∃ block ∈ requestPages whereAddr nPages, byte ∈ bytes block := by
  obtain ⟨above, below, inSpace⟩ := inside
  have page : (byte - whereAddr.toNat) / 4096 < nPages := by omega
  have start : whereAddr.toNat + (byte - whereAddr.toNat) / 4096 * 4096 < 2 ^ 64 := by omega
  refine ⟨_, List.mem_map.mpr ⟨(byte - whereAddr.toNat) / 4096, List.mem_filter.mpr ⟨List.mem_range.mpr page, decide_eq_true start⟩,
    rfl⟩, ?_⟩
  simp only [bytes, Set.mem_ofPred_eq, page_start whereAddr _ start]
  omega

-- A request whose free bytes all lie in its own listed block is served by unlinking the block.
theorem unlink_removes (wellFormed : WellFormed lists) (aligned : Aligned (0, whereAddr)) (some : 1 ≤ nPages)
    (small : getAllocOrder nPages ≤ allocMaxOrder) (found : BlockListed whereAddr lists (getAllocOrder nPages))
    (within : ∀ byte ∈ requestBytes whereAddr nPages, byte ∈ freeBytes lists → byte ∈ bytes (requestBlock whereAddr nPages)) :
    Removed lists (setList lists (getAllocOrder nPages)
      ((lists (getAllocOrder nPages)).erase (alignBlock whereAddr (getAllocOrder nPages)))) whereAddr nPages := by
  obtain ⟨keeps, left⟩ := unlink_well_formed lists (getAllocOrder nPages) _ wellFormed small found
  have first : whereAddr.toNat ∈ requestBytes whereAddr nPages := ⟨Nat.le_refl _, by omega, whereAddr.isLt⟩
  have own : whereAddr.toNat ∈ bytes (requestBlock whereAddr nPages) := by
    rw [requestBlock, align_block_points whereAddr _ small]
    exact in_own_block whereAddr _
  refine ⟨keeps, fun block member => Set.disjoint_left.mpr (fun byte inBlock requested => ?_),
    requestBlock whereAddr nPages :: requestPages whereAddr nPages, fun block member => ?_, fun byte requested => ?_, ?_⟩
  · have isLeft : byte ∈ freeBytes lists \ bytes (requestBlock whereAddr nPages) := left ▸ ⟨block, member, inBlock⟩
    exact isLeft.2 (within byte requested isLeft.1)
  · rcases List.mem_cons.mp member with rfl | page
    · exact ⟨small, align_block_aligned whereAddr _ small, Set.not_disjoint_iff.mpr ⟨_, own, first⟩⟩
    · have inside := request_page_inside whereAddr nPages block aligned page
      refine ⟨?_, request_page_aligned whereAddr nPages block aligned page,
        Set.not_disjoint_iff.mpr ⟨_, bytes_start block, inside (bytes_start block)⟩⟩
      rw [(mem_request_pages whereAddr nPages block page).1]
      exact Nat.zero_le _
  · obtain ⟨block, member, inBlock⟩ := request_pages_cover whereAddr nPages byte requested
    exact ⟨block, List.mem_cons_of_mem _ member, inBlock⟩
  · rw [left]
    ext byte
    refine and_congr_right (fun free => not_congr ⟨fun own => ⟨_, List.mem_cons_self, own⟩, ?_⟩)
    rintro ⟨block, member, inBlock⟩
    rcases List.mem_cons.mp member with rfl | page
    · exact inBlock
    · exact within byte (request_page_inside whereAddr nPages block aligned page inBlock) free

theorem reserve_fault_fails (fault : Fault) (parent : ParentListed whereAddr lists (getAllocOrder nPages))
    (unlisted : ¬ BlockListed whereAddr lists (getAllocOrder nPages)) (faults : reserve whereAddr nPages lists = .error fault) :
    ReserveExact lists whereAddr nPages ↔ ReserveMeets lists whereAddr nPages := by
  refine iff_of_false (fun exact => ?_) (fun meets => ?_)
  · obtain ⟨result, returned⟩ := exact.terminates
    rw [faults] at returned
    cases returned
  · obtain ⟨i, member, found⟩ := parent
    obtain ⟨above, below⟩ := (mem_higher_orders _ i).mp member
    exact meets.resolve_left (fun own => unlisted own.1) i (Nat.le_of_lt above) (Nat.le_of_lt below) found

theorem reserve_exact_iff (wellFormed : WellFormed lists) (aligned : 4096 ∣ whereAddr.toNat) (some : 1 ≤ nPages)
    (fits : nPages ≤ 2 ^ allocMaxOrder) : ReserveExact lists whereAddr nPages ↔ ReserveMeets lists whereAddr nPages := by
  have small := get_alloc_order_le nPages fits
  have pageAligned : Aligned (0, whereAddr) := by simpa [Aligned] using aligned
  have containing := containing_block_iff lists whereAddr nPages wellFormed.aligned small
  obtain ⟨listed, done⟩ | ⟨unlisted, ⟨parent, refused⟩ | ⟨⟨i, member, parent, _⟩, fault⟩ | ⟨⟨i, member, parent⟩, _, fault⟩⟩ :=
    reserve_cases whereAddr lists nPages small
  · obtain ⟨_, left⟩ := unlink_well_formed lists (getAllocOrder nPages) _ wellFormed small listed
    constructor
    · intro exact
      refine .inl ⟨listed, fun byte requested free => ?_⟩
      by_contra outside
      have isLeft : byte ∈ freeBytes lists \ bytes (requestBlock whereAddr nPages) := ⟨free, outside⟩
      rw [requestBlock, ← left] at isLeft
      obtain ⟨block, member, inBlock⟩ := isLeft
      exact Set.disjoint_left.mp ((exact.removes _ done).apart block member) inBlock requested
    · intro meets
      have within := (meets.resolve_right (fun none => none _ (Nat.le_refl _) small listed)).2
      refine ⟨⟨_, done⟩, fun after same => ?_, fun _ => ⟨_, done⟩⟩
      rw [done] at same
      obtain ⟨_, rfl⟩ := Prod.mk.inj (Except.ok.inj same)
      exact unlink_removes lists whereAddr nPages wellFormed pageAligned some small listed within
  · constructor
    · intro exact
      refine .inr (fun i above inRange found => ?_)
      obtain ⟨after, returned⟩ := exact.succeeds (containing.mpr ⟨i, above, inRange, found⟩)
      rw [refused] at returned
      cases returned
    · intro meets
      have none := meets.resolve_left (fun own => unlisted own.1)
      refine ⟨⟨_, refused⟩, fun after same => ?_, fun inside => ?_⟩
      · rw [refused] at same
        cases same
      · obtain ⟨i, above, inRange, found⟩ := containing.mp inside
        exact absurd found (none i above inRange)
  · exact reserve_fault_fails lists whereAddr nPages _ ⟨i, member, parent⟩ unlisted fault
  · exact reserve_fault_fails lists whereAddr nPages _ ⟨i, member, parent⟩ unlisted fault

end

theorem own_block_reserve_exact_iff :
    ReserveExact (single 1 0x4000) 0x4000 2 ↔ ReserveMeets (single 1 0x4000) 0x4000 2 :=
  reserve_exact_iff (single 1 0x4000) 0x4000 2 (single_well_formed 1 0x4000 (by decide) ⟨2, rfl⟩) ⟨4, rfl⟩ (by decide) (by decide)

-- Of a free block of two pages the first page cannot be reserved: the split loop runs away.
theorem half_block_reserve_fails : WellFormed (single 1 0x4000) ∧ ¬ ReserveExact (single 1 0x4000) 0x4000 1 := by
  refine ⟨single_well_formed 1 0x4000 (by decide) ⟨2, rfl⟩, fun exact => ?_⟩
  obtain ⟨result, returned⟩ := exact.terminates
  have parent : ParentListed 0x4000 (single 1 0x4000) (getAllocOrder 1) := ⟨1, by decide, by decide⟩
  obtain ⟨own, _⟩ | ⟨_, ⟨none, _⟩ | ⟨_, fault⟩ | ⟨_, _, fault⟩⟩ := reserve_cases 0x4000 (single 1 0x4000) 1 (by decide)
  · exact absurd own (by decide)
  · exact none parent
  · rw [fault] at returned
    cases returned
  · rw [fault] at returned
    cases returned

-- Free according to is_allocated is what some free block of the request's order or a higher
-- one contains.
def IsAllocatedExact (lists : FreeLists) (whereAddr : Addr) (nPages : Nat) : Prop :=
  isAllocated whereAddr nPages lists = .ok false ↔
    ∃ block ∈ listed lists, getAllocOrder nPages ≤ block.1 ∧ bytes (requestBlock whereAddr nPages) ⊆ bytes block

section
variable (lists : FreeLists) (whereAddr : Addr) (nPages : Nat)

theorem block_listed_once (wellFormed : WellFormed lists) (i j : Nat) (inRangeI : i ≤ allocMaxOrder) (inRangeJ : j ≤ allocMaxOrder)
    (atI : BlockListed whereAddr lists i) (atJ : BlockListed whereAddr lists j) : i = j := by
  by_contra different
  have apart := listed_disjoint lists wellFormed (i, alignBlock whereAddr i) (j, alignBlock whereAddr j)
    ((mem_listed lists _).mpr ⟨inRangeI, atI⟩) ((mem_listed lists _).mpr ⟨inRangeJ, atJ⟩)
    (fun same => different (Prod.mk.inj same).1)
  rw [align_block_points whereAddr i inRangeI, align_block_points whereAddr j inRangeJ] at apart
  exact Set.disjoint_left.mp apart (in_own_block whereAddr i) (in_own_block whereAddr j)

theorem is_allocated_false_iff (small : getAllocOrder nPages ≤ allocMaxOrder) :
    isAllocated whereAddr nPages lists = .ok false ↔
      BlockListed whereAddr lists (getAllocOrder nPages) ∨ ParentListed whereAddr lists (getAllocOrder nPages) := by
  obtain ⟨listed, freeEq⟩ | ⟨unlisted, parent, takenEq⟩ := is_allocated_cases whereAddr lists nPages small
  · exact iff_of_true freeEq listed
  · refine iff_of_false (fun same => ?_) (not_or.mpr ⟨unlisted, parent⟩)
    rw [takenEq] at same
    cases same

-- The loop leaves out ALLOC_MAX_ORDER, so a free block of that order is seen only by a
-- request of the same order.
theorem is_allocated_exact_iff (wellFormed : WellFormed lists) (fits : nPages ≤ 2 ^ allocMaxOrder) :
    IsAllocatedExact lists whereAddr nPages ↔
      (getAllocOrder nPages = allocMaxOrder ∨ ¬ BlockListed whereAddr lists allocMaxOrder) := by
  have small := get_alloc_order_le nPages fits
  have containing : (∃ block ∈ listed lists, getAllocOrder nPages ≤ block.1 ∧ bytes (requestBlock whereAddr nPages) ⊆ bytes block) ↔
      ∃ i, getAllocOrder nPages ≤ i ∧ i ≤ allocMaxOrder ∧ BlockListed whereAddr lists i := by
    rw [← containing_block_iff lists whereAddr nPages wellFormed.aligned small]
    refine exists_congr fun block => and_congr_right fun member => and_iff_right_of_imp fun inside => ?_
    obtain ⟨inRange, found⟩ := (mem_listed lists block).mp member
    exact ((contains_request_iff whereAddr nPages block.1 block.2 small inRange
      (wellFormed.aligned block.1 inRange block.2 found)).mp inside).1
  rw [IsAllocatedExact, is_allocated_false_iff lists whereAddr nPages small, containing]
  constructor
  · intro exact
    by_contra missed
    obtain ⟨lower, top⟩ := not_or.mp missed
    have top := not_not.mp top
    rcases exact.mpr ⟨allocMaxOrder, small, Nat.le_refl _, top⟩ with own | ⟨i, member, parent⟩
    · exact lower (block_listed_once lists whereAddr wellFormed _ _ small (Nat.le_refl _) own top)
    · have range := (mem_higher_orders _ i).mp member
      have same := block_listed_once lists whereAddr wellFormed i _ (Nat.le_of_lt range.2) (Nat.le_refl _) parent top
      omega
  · intro top
    constructor
    · rintro (own | ⟨i, member, parent⟩)
      · exact ⟨_, Nat.le_refl _, small, own⟩
      · obtain ⟨above, below⟩ := (mem_higher_orders _ i).mp member
        exact ⟨i, Nat.le_of_lt above, Nat.le_of_lt below, parent⟩
    · rintro ⟨i, above, inRange, found⟩
      by_cases own : i = getAllocOrder nPages
      · exact .inl (own ▸ found)
      · have notTop : i ≠ allocMaxOrder := fun same =>
          (top.resolve_left (by omega)) (same ▸ found)
        exact .inr ⟨i, (mem_higher_orders _ i).mpr ⟨by omega, by omega⟩, found⟩

end

theorem small_block_is_allocated_exact_iff :
    IsAllocatedExact (single 3 0x8000) 0x9000 1 ↔
      (getAllocOrder 1 = allocMaxOrder ∨ ¬ BlockListed 0x9000 (single 3 0x8000) allocMaxOrder) :=
  is_allocated_exact_iff (single 3 0x8000) 0x9000 1 (single_well_formed 3 0x8000 (by decide) ⟨1, rfl⟩) (by decide)

-- A page in a free gigabyte is called allocated.
theorem top_block_called_allocated : WellFormed (single allocMaxOrder 0) ∧ ¬ IsAllocatedExact (single allocMaxOrder 0) 0x1000 1 := by
  have wellFormed := single_well_formed allocMaxOrder 0 (Nat.le_refl _) (Nat.dvd_zero _)
  refine ⟨wellFormed, fun exact => ?_⟩
  have taken : isAllocated 0x1000 1 (single allocMaxOrder 0) = .ok true := rfl
  have inside : bytes (requestBlock 0x1000 1) ⊆ bytes (allocMaxOrder, 0) :=
    (contains_request_iff 0x1000 1 allocMaxOrder 0 (by decide) (Nat.le_refl _) (Nat.dvd_zero _)).mpr ⟨by decide, by decide⟩
  have free := exact.mpr ⟨(allocMaxOrder, 0), (mem_listed _ _).mpr ⟨Nat.le_refl _, by simp [single]⟩, by decide, inside⟩
  rw [taken] at free
  cases free

end Kraftwerk.Pmem
