import Kraftwerk.Pmem.BuddyRuns
import Kraftwerk.Pmem.Initialize

set_option autoImplicit false

-- Which memory maps physical_memory::initialize turns into exactly their whole frames.
namespace Kraftwerk.Pmem

open Cover

def wholeFrameCount (range : BootMmap) : Nat := range.size.toNat / 4096

def rangeBytes (range : BootMmap) : Set Nat :=
  {byte | range.beginning.toNat ≤ byte ∧ byte < range.beginning.toNat + range.size.toNat}

def wholeFrames (range : BootMmap) : Set Nat :=
  {byte | range.beginning.toNat ≤ byte ∧ byte < range.beginning.toNat + wholeFrameCount range * 4096}

-- Ranges of the 64-bit address space that start at pages and do not overlap.
structure BootRanges (memMap : List BootMmap) : Prop where
  aligned : ∀ range ∈ memMap, 4096 ∣ range.beginning.toNat
  inside : ∀ range ∈ memMap, range.beginning.toNat + range.size.toNat ≤ 2 ^ 64
  disjoint : memMap.Pairwise (fun a b => Disjoint (rangeBytes a) (rangeBytes b))

structure BuildsExactly (memMap : List BootMmap) : Prop where
  wellFormed : WellFormed (pmemInitialize memMap)
  frames : freeBytes (pmemInitialize memMap) = {byte | ∃ range ∈ memMap, byte ∈ wholeFrames range}

-- A range without a whole frame, a block of its own size at its own alignment, or between
-- 2^19 and 2^20 frames, which are listed one by one.
def ExactRange (range : BootMmap) : Prop :=
  wholeFrameCount range = 0 ∨
    (∃ order ≤ allocMaxOrder, wholeFrameCount range = 2 ^ order ∧ 2 ^ (order + 12) ∣ range.beginning.toNat) ∨
    (2 ^ 19 ≤ wholeFrameCount range ∧ wholeFrameCount range ≤ 2 ^ 20)

def rangeBlocks (range : BootMmap) : List Block := (List.range (nBlocks range)).map (initBlock range)

theorem mem_range_blocks (range : BootMmap) (block : Block) :
    block ∈ rangeBlocks range ↔ ∃ j < nBlocks range, block = initBlock range j := by
  simp only [rangeBlocks, List.mem_map, List.mem_range, eq_comm]

theorem linked_cover (blocks : List Block) (lists : FreeLists) (byte : Nat) (small : ∀ block ∈ blocks, block.1 ≤ allocMaxOrder) :
    freeCover (blocks.foldl (fun lists block => setList lists block.1 (block.2 :: lists block.1)) lists) byte =
      freeCover lists byte + cover bytes blocks byte := by
  induction blocks generalizing lists with
  | nil => rfl
  | cons block rest ih =>
      have link := free_cover_link lists block.1 block.2 byte (small block List.mem_cons_self)
      rw [List.foldl_cons, ih _ (fun other member => small other (List.mem_cons_of_mem block member)), link,
        Nat.add_assoc, ← cover_append]
      rfl

theorem linked_listed (blocks : List Block) (lists : FreeLists) (block : Block) (small : ∀ block ∈ blocks, block.1 ≤ allocMaxOrder) :
    block ∈ listed (blocks.foldl (fun lists block => setList lists block.1 (block.2 :: lists block.1)) lists) ↔
      block ∈ listed lists ∨ block ∈ blocks := by
  induction blocks generalizing lists with
  | nil => simp
  | cons head rest ih =>
      have link : block ∈ listed (setList lists head.1 (head.2 :: lists head.1)) ↔ block = head ∨ block ∈ listed lists := by
        rw [mem_listed, mem_listed]
        by_cases here : block.1 = head.1
        · rw [here, set_list_same, List.mem_cons, Prod.ext_iff]
          have inRange := small head List.mem_cons_self
          tauto
        · rw [set_list_other _ _ _ _ here, Prod.ext_iff]
          tauto
      rw [List.foldl_cons, ih _ (fun other member => small other (List.mem_cons_of_mem head member)), link, List.mem_cons]
      tauto

theorem pmem_initialize_linked (memMap : List BootMmap) :
    pmemInitialize memMap =
      (memMap.flatMap rangeBlocks).foldl (fun lists block => setList lists block.1 (block.2 :: lists block.1)) (fun _ => []) := by
  rw [List.foldl_flatMap, pmemInitialize]
  refine congrArg (fun link => memMap.foldl link _) ?_
  funext lists range
  rw [initializeRange, rangeBlocks, List.foldl_map]

theorem range_blocks_small (memMap : List BootMmap) (block : Block) (member : block ∈ memMap.flatMap rangeBlocks) :
    block.1 ≤ allocMaxOrder := by
  obtain ⟨range, _, inBlocks⟩ := List.mem_flatMap.mp member
  obtain ⟨j, _, rfl⟩ := (mem_range_blocks range block).mp inBlocks
  exact init_order_le _

theorem initialized_cover (memMap : List BootMmap) (byte : Nat) :
    freeCover (pmemInitialize memMap) byte = cover bytes (memMap.flatMap rangeBlocks) byte := by
  rw [pmem_initialize_linked, linked_cover _ _ byte (range_blocks_small memMap), free_cover_empty, Nat.zero_add]

theorem initialized_listed (memMap : List BootMmap) (block : Block) :
    block ∈ listed (pmemInitialize memMap) ↔ ∃ range ∈ memMap, block ∈ rangeBlocks range := by
  have none : block ∉ listed (fun _ => []) := fun member => by simpa using ((mem_listed _ block).mp member).2
  rw [pmem_initialize_linked, linked_listed _ _ block (range_blocks_small memMap), or_iff_right none, List.mem_flatMap]

section
variable (range : BootMmap)

theorem n_frames_eq : nFrames range = wholeFrameCount range % 2 ^ 32 := by
  rw [nFrames, BitVec.truncate_eq_setWidth, BitVec.toNat_setWidth, BitVec.toNat_ushiftRight, Nat.shiftRight_eq_div_pow]
  rfl

-- The offset of a block in its range: the shift drops what does not fit into 32 bits.
def blockOffset (j : Nat) : Nat := j * 2 ^ (initOrder (nFrames range) + 12) % 2 ^ 32

theorem block_inside (j : Nat) (inRange : j < nBlocks range) :
    blockOffset range j + 2 ^ (initOrder (nFrames range) + 12) ≤ wholeFrameCount range * 4096 := by
  have count : (j + 1) * 2 ^ initOrder (nFrames range) ≤ nFrames range := by
    rw [nBlocks, Nat.shiftRight_eq_div_pow] at inRange
    exact (Nat.le_div_iff_mul_le (Nat.two_pow_pos _)).mp inRange
  have cut : nFrames range ≤ wholeFrameCount range := n_frames_eq range ▸ Nat.mod_le _ _
  have scaled := Nat.mul_le_mul_right 4096 (Nat.le_trans count cut)
  have size : 2 ^ (initOrder (nFrames range) + 12) = 2 ^ initOrder (nFrames range) * 4096 := Nat.pow_add 2 _ 12
  have low := Nat.mod_le (j * 2 ^ (initOrder (nFrames range) + 12)) (2 ^ 32)
  rw [blockOffset]
  rw [size] at low ⊢
  rw [Nat.mul_assoc, Nat.succ_mul] at scaled
  omega

theorem init_block_start (j : Nat) (inRange : j < nBlocks range)
    (inside : range.beginning.toNat + range.size.toNat ≤ 2 ^ 64) :
    (initBlock range j).2.toNat = range.beginning.toNat + blockOffset range j := by
  have within := block_inside range j inRange
  have positive := Nat.two_pow_pos (initOrder (nFrames range) + 12)
  have whole : wholeFrameCount range * 4096 ≤ range.size.toNat := Nat.div_mul_le_self _ _
  have offset : ((BitVec.ofNat 32 j) <<< (initOrder (nFrames range) + 12)).toNat = blockOffset range j := by
    rw [BitVec.toNat_shiftLeft, BitVec.toNat_ofNat, Nat.shiftLeft_eq, Nat.mod_mul_mod, blockOffset]
  rw [initBlock, BitVec.toNat_add, BitVec.toNat_setWidth, offset]
  omega

theorem init_block_bytes (j : Nat) (inRange : j < nBlocks range)
    (inside : range.beginning.toNat + range.size.toNat ≤ 2 ^ 64) (byte : Nat) :
    byte ∈ bytes (initBlock range j) ↔ range.beginning.toNat + blockOffset range j ≤ byte ∧
      byte < range.beginning.toNat + blockOffset range j + 2 ^ (initOrder (nFrames range) + 12) := by
  rw [bytes, Set.mem_ofPred_eq, init_block_start range j inRange inside]
  rfl

theorem range_blocks_inside (inside : range.beginning.toNat + range.size.toNat ≤ 2 ^ 64) (block : Block)
    (member : block ∈ rangeBlocks range) : bytes block ⊆ wholeFrames range := by
  obtain ⟨j, inRange, rfl⟩ := (mem_range_blocks range block).mp member
  intro byte covered
  have place := (init_block_bytes range j inRange inside byte).mp covered
  have within := block_inside range j inRange
  exact ⟨by omega, by omega⟩

-- What one range contributes is right on its own.
structure RangeExact : Prop where
  aligned : ∀ block ∈ rangeBlocks range, Aligned block
  once : ∀ byte ∈ wholeFrames range, cover bytes (rangeBlocks range) byte = 1

end

section
variable (range : BootMmap)

-- The last byte of the last whole frame has to be in some block.
theorem last_frame_covered (inside : range.beginning.toNat + range.size.toNat ≤ 2 ^ 64) (some : 1 ≤ wholeFrameCount range)
    (exactly : RangeExact range) :
    ∃ j < nBlocks range, wholeFrameCount range * 4096 ≤ blockOffset range j + 2 ^ (initOrder (nFrames range) + 12) := by
  have last : range.beginning.toNat + (wholeFrameCount range * 4096 - 1) ∈ wholeFrames range := ⟨by omega, by omega⟩
  have covered : 0 < cover bytes (rangeBlocks range) (range.beginning.toNat + (wholeFrameCount range * 4096 - 1)) := by
    rw [exactly.once _ last]
    exact Nat.one_pos
  obtain ⟨block, member, inBlock⟩ := (cover_pos_iff bytes _ _).mp covered
  obtain ⟨j, inRange, rfl⟩ := (mem_range_blocks range block).mp member
  have place := (init_block_bytes range j inRange inside _).mp inBlock
  exact ⟨j, inRange, by omega⟩

theorem few_frames_one_block (some : 1 ≤ nFrames range) (few : nFrames range < 2 ^ 19) : nBlocks range = 1 := by
  obtain ⟨low, high⟩ := init_order_log (nFrames range) some few
  rw [nBlocks, Nat.shiftRight_eq_div_pow]
  rw [Nat.pow_succ] at high
  exact Nat.div_eq_of_lt_le (by omega) (by omega)

theorem many_frames_single (many : 2 ^ 19 ≤ nFrames range) :
    nBlocks range = nFrames range ∧ ∀ j, blockOffset range j = j % 2 ^ 20 * 4096 := by
  have order := init_order_many (nFrames range) many
  refine ⟨by rw [nBlocks, order, Nat.shiftRight_zero], fun j => ?_⟩
  rw [blockOffset, order]
  omega

theorem block_at_start (j : Nat) (inRange : j < nBlocks range) (inside : range.beginning.toNat + range.size.toNat ≤ 2 ^ 64)
    (start : blockOffset range j = 0) : range.beginning.toNat ∈ bytes (initBlock range j) := by
  have positive := Nat.two_pow_pos (initOrder (nFrames range) + 12)
  rw [init_block_bytes range j inRange inside, start]
  omega

theorem range_pairwise_disjoint (inside : range.beginning.toNat + range.size.toNat ≤ 2 ^ 64) (exactly : RangeExact range) :
    PairwiseDisjoint (rangeBlocks range) := by
  refine (pairwise_disjoint_iff bytes _).mpr (fun byte => ?_)
  by_cases here : byte ∈ wholeFrames range
  · exact Nat.le_of_eq (exactly.once byte here)
  · have none : cover bytes (rangeBlocks range) byte = 0 :=
      (cover_eq_zero_iff bytes _ byte).mpr fun block member covered => here (range_blocks_inside range inside block member covered)
    omega

theorem range_exact_only (inside : range.beginning.toNat + range.size.toNat ≤ 2 ^ 64) (exactly : RangeExact range) :
    ExactRange range := by
  have cut := n_frames_eq range
  by_cases some : 1 ≤ wholeFrameCount range
  · obtain ⟨j, inRange, reaches⟩ := last_frame_covered range inside some exactly
    have someFrames : 1 ≤ nFrames range := by
      rw [nBlocks, Nat.shiftRight_eq_div_pow] at inRange
      have counted := Nat.div_le_self (nFrames range) (2 ^ initOrder (nFrames range))
      omega
    by_cases few : nFrames range < 2 ^ 19
    · have one := few_frames_one_block range someFrames few
      obtain ⟨low, _⟩ := init_order_log (nFrames range) someFrames few
      obtain rfl : j = 0 := by omega
      have start : blockOffset range 0 = 0 := by rw [blockOffset, Nat.zero_mul, Nat.zero_mod]
      have size : 2 ^ (initOrder (nFrames range) + 12) = 2 ^ initOrder (nFrames range) * 4096 := Nat.pow_add 2 _ 12
      have aligned := exactly.aligned (initBlock range 0) ((mem_range_blocks range _).mpr ⟨0, inRange, rfl⟩)
      have beginning := init_block_start range 0 inRange inside
      refine .inr (.inl ⟨initOrder (nFrames range), init_order_le _, by omega, ?_⟩)
      rw [start, Nat.add_zero] at beginning
      exact beginning ▸ aligned
    · obtain ⟨count, offsets⟩ := many_frames_single range (by omega)
      have order := init_order_many (nFrames range) (by omega)
      have noWrap : nFrames range ≤ 2 ^ 20 := by
        by_contra wraps
        have apart := List.pairwise_map.mp (range_pairwise_disjoint range inside exactly)
        have twice := List.pairwise_iff_getElem.mp apart 0 (2 ^ 20) (by simp; omega) (by simp; omega) (by decide)
        simp only [List.getElem_range] at twice
        have first := block_at_start range 0 (by omega) inside ((offsets 0).trans (by norm_num))
        have again := block_at_start range (2 ^ 20) (by omega) inside ((offsets (2 ^ 20)).trans (by norm_num))
        exact Set.disjoint_left.mp twice first again
      rw [offsets, order] at reaches
      exact .inr (.inr ⟨by omega, by omega⟩)
  · exact .inl (by omega)

theorem single_frames_exact (pageAligned : 4096 ∣ range.beginning.toNat)
    (inside : range.beginning.toNat + range.size.toNat ≤ 2 ^ 64) (many : 2 ^ 19 ≤ wholeFrameCount range)
    (noWrap : wholeFrameCount range ≤ 2 ^ 20) : RangeExact range := by
  have cut := n_frames_eq range
  obtain ⟨count, offsets⟩ := many_frames_single range (by omega)
  have order := init_order_many (nFrames range) (by omega)
  have offset : ∀ j < nBlocks range, blockOffset range j = j * 4096 := fun j inRange => by
    rw [offsets, Nat.mod_eq_of_lt (by omega)]
  refine ⟨fun block member => ?_, fun byte here => Nat.le_antisymm ?_ ?_⟩
  · obtain ⟨j, inRange, rfl⟩ := (mem_range_blocks range block).mp member
    have start := init_block_start range j inRange inside
    rw [offset j inRange] at start
    rw [Aligned, start, show (initBlock range j).1 = 0 from order]
    exact Nat.dvd_add pageAligned (Nat.dvd_mul_left _ j)
  · refine (pairwise_disjoint_iff bytes _).mp ?_ byte
    refine List.pairwise_map.mpr (List.pairwise_lt_range.imp_of_mem (fun {i j} memberI memberJ before => ?_))
    have inRangeI := List.mem_range.mp memberI
    have inRangeJ := List.mem_range.mp memberJ
    refine Set.disjoint_left.mpr (fun point inI inJ => ?_)
    rw [init_block_bytes range i inRangeI inside, offset i inRangeI, order] at inI
    rw [init_block_bytes range j inRangeJ inside, offset j inRangeJ, order] at inJ
    omega
  · have place : (byte - range.beginning.toNat) / 4096 < nBlocks range := by
      have below := here.2
      omega
    refine (cover_pos_iff bytes _ byte).mpr ⟨_, (mem_range_blocks range _).mpr ⟨_, place, rfl⟩, ?_⟩
    have above := here.1
    rw [init_block_bytes range _ place inside, offset _ place, order]
    omega

theorem power_exact (order : Nat) (inside : range.beginning.toNat + range.size.toNat ≤ 2 ^ 64) (small : order ≤ allocMaxOrder)
    (count : wholeFrameCount range = 2 ^ order) (aligned : 2 ^ (order + 12) ∣ range.beginning.toNat) : RangeExact range := by
  have bound : 2 ^ order ≤ 2 ^ allocMaxOrder := Nat.pow_le_pow_right (by decide) small
  unfold allocMaxOrder at bound
  have positive := Nat.two_pow_pos order
  have frames : nFrames range = 2 ^ order := by
    rw [n_frames_eq, count]
    exact Nat.mod_eq_of_lt (by omega)
  obtain ⟨low, high⟩ := init_order_log (nFrames range) (by omega) (by omega)
  have same : initOrder (nFrames range) = order := by
    rw [frames] at low high ⊢
    have notAbove := (Nat.pow_le_pow_iff_right (by decide : 1 < 2)).mp low
    have notBelow := (Nat.pow_lt_pow_iff_right (by decide : 1 < 2)).mp high
    omega
  have one := few_frames_one_block range (by omega) (by omega)
  have start : blockOffset range 0 = 0 := by rw [blockOffset, Nat.zero_mul, Nat.zero_mod]
  have blocks : rangeBlocks range = [initBlock range 0] := by rw [rangeBlocks, one]; rfl
  refine ⟨fun block member => ?_, fun byte here => ?_⟩
  · rw [blocks] at member
    obtain rfl := List.mem_singleton.mp member
    rw [Aligned, init_block_start range 0 (by omega) inside, start, show (initBlock range 0).1 = order from same]
    exact aligned
  · have covered : byte ∈ bytes (initBlock range 0) := by
      obtain ⟨above, below⟩ := here
      have size : 2 ^ (order + 12) = 2 ^ order * 4096 := Nat.pow_add 2 order 12
      rw [init_block_bytes range 0 (by omega) inside, start, same]
      omega
    rw [blocks, cover_cons, cover_nil, if_pos covered]

theorem exact_range_suffices (pageAligned : 4096 ∣ range.beginning.toNat)
    (inside : range.beginning.toNat + range.size.toNat ≤ 2 ^ 64) (exactly : ExactRange range) : RangeExact range := by
  rcases exactly with none | ⟨order, small, count, aligned⟩ | ⟨many, noWrap⟩
  · have noBlocks : nBlocks range = 0 := by rw [nBlocks, n_frames_eq, none]; rfl
    refine ⟨fun block member => ?_, fun byte here => ?_⟩
    · obtain ⟨j, inRange, _⟩ := (mem_range_blocks range block).mp member
      omega
    · obtain ⟨above, below⟩ := here
      omega
  · exact power_exact range order inside small count aligned
  · exact single_frames_exact range pageAligned inside many noWrap

end

theorem whole_frames_inside (range : BootMmap) : wholeFrames range ⊆ rangeBytes range := by
  intro byte member
  have whole : wholeFrameCount range * 4096 ≤ range.size.toNat := Nat.div_mul_le_self _ _
  simp only [wholeFrames, rangeBytes, Set.mem_ofPred_eq] at member ⊢
  omega

theorem builds_exactly_ranges (memMap : List BootMmap) (ranges : BootRanges memMap) :
    BuildsExactly memMap ↔ ∀ range ∈ memMap, RangeExact range := by
  have blocksInside : ∀ range ∈ memMap, ∀ block ∈ rangeBlocks range, bytes block ⊆ wholeFrames range := fun range member =>
    range_blocks_inside range (ranges.inside range member)
  have apart : memMap.Pairwise (fun a b => Disjoint (wholeFrames a) (wholeFrames b)) :=
    ranges.disjoint.imp (fun separate => separate.mono (whole_frames_inside _) (whole_frames_inside _))
  have share : ∀ range ∈ memMap, ∀ byte ∈ wholeFrames range,
      freeCover (pmemInitialize memMap) byte = cover bytes (rangeBlocks range) byte := fun range member byte here =>
    (initialized_cover memMap byte).trans
      (cover_flat_map_apart bytes memMap rangeBlocks wholeFrames range byte blocksInside apart member here)
  have outside : ∀ byte, byte ∈ freeBytes (pmemInitialize memMap) → ∃ range ∈ memMap, byte ∈ wholeFrames range := by
    rintro byte ⟨block, member, covered⟩
    obtain ⟨range, rangeMember, inBlocks⟩ := (initialized_listed memMap block).mp member
    exact ⟨range, rangeMember, blocksInside range rangeMember block inBlocks covered⟩
  constructor
  · intro exact range member
    refine ⟨fun block inBlocks => ?_, fun byte here => ?_⟩
    · exact listed_aligned _ exact.wellFormed block ((initialized_listed memMap block).mpr ⟨range, member, inBlocks⟩)
    · have free : byte ∈ freeBytes (pmemInitialize memMap) := exact.frames ▸ ⟨range, member, here⟩
      have some := (mem_free_bytes _ byte).mp free
      have once := well_formed_once _ exact.wellFormed byte
      rw [← share range member byte here]
      omega
  · intro all
    refine ⟨⟨fun order small start found => ?_, (pairwise_disjoint_iff bytes _).mpr (fun byte => ?_)⟩, ?_⟩
    · obtain ⟨range, member, inBlocks⟩ := (initialized_listed memMap (order, start)).mp ((mem_listed _ _).mpr ⟨small, found⟩)
      exact (all range member).aligned _ inBlocks
    · by_cases free : byte ∈ freeBytes (pmemInitialize memMap)
      · obtain ⟨range, member, here⟩ := outside byte free
        exact Nat.le_of_eq ((share range member byte here).trans ((all range member).once byte here))
      · rw [mem_free_bytes] at free
        unfold freeCover at free
        omega
    · ext byte
      refine ⟨outside byte, fun ⟨range, member, here⟩ => ?_⟩
      rw [mem_free_bytes, share range member byte here, (all range member).once byte here]
      exact Nat.one_pos

theorem builds_exactly_iff (memMap : List BootMmap) (ranges : BootRanges memMap) :
    BuildsExactly memMap ↔ ∀ range ∈ memMap, ExactRange range := by
  rw [builds_exactly_ranges memMap ranges]
  refine forall_congr' fun range => forall_congr' fun member => ⟨?_, ?_⟩
  · exact range_exact_only range (ranges.inside range member)
  · exact exact_range_suffices range (ranges.aligned range member) (ranges.inside range member)

theorem one_boot_range (beginning : Addr) (size : BitVec 64) (aligned : 4096 ∣ beginning.toNat)
    (inside : beginning.toNat + size.toNat ≤ 2 ^ 64) : BootRanges [⟨beginning, size⟩] :=
  ⟨fun _ member => List.mem_singleton.mp member ▸ aligned, fun _ member => List.mem_singleton.mp member ▸ inside,
    List.pairwise_singleton _ _⟩

theorem second_megabyte_builds_exactly_iff :
    BuildsExactly [⟨0x100000, 0x100000⟩] ↔ ∀ range ∈ [BootMmap.mk 0x100000 0x100000], ExactRange range :=
  builds_exactly_iff _ (one_boot_range 0x100000 0x100000 ⟨256, rfl⟩ (by decide))

-- The third of three pages is on no list.
theorem three_pages_lose_one : BootRanges [⟨0x100000, 0x3000⟩] ∧ ¬ BuildsExactly [⟨0x100000, 0x3000⟩] := by
  refine ⟨one_boot_range 0x100000 0x3000 ⟨256, rfl⟩ (by decide), fun exact => ?_⟩
  have third : 0x102000 ∈ wholeFrames ⟨0x100000, 0x3000⟩ := ⟨by decide, by decide⟩
  have free : 0x102000 ∈ freeBytes (pmemInitialize [⟨0x100000, 0x3000⟩]) := exact.frames ▸ ⟨_, List.mem_cons_self, third⟩
  obtain ⟨block, member, covered⟩ := free
  have blocks : listed (pmemInitialize [⟨0x100000, 0x3000⟩]) = [(1, 0x100000)] := by decide
  rw [blocks] at member
  obtain rfl := List.mem_singleton.mp member
  exact absurd covered.2 (by decide)

end Kraftwerk.Pmem
