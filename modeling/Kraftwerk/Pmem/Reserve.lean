import Kraftwerk.Pmem.Checked

set_option autoImplicit false

-- is_allocated and reserve of os/core/physical_mem.cpp.
namespace Kraftwerk.Pmem

def higherOrders (order : Nat) : List Nat := List.range' (order + 1) (allocMaxOrder - (order + 1))

def isAllocatedAbove (whereAddr : Addr) (lists : FreeLists) : List Nat → Checked Bool
  | [] => .ok true
  | i :: rest =>
      (listAt lists i).bind fun blocks =>
        if blocks = [] then isAllocatedAbove whereAddr lists rest
        else
          (alignBlockChecked whereAddr i).bind fun tmpBlkStart =>
            if tmpBlkStart ∈ blocks then .ok false else isAllocatedAbove whereAddr lists rest

def isAllocated (whereAddr : Addr) (nPages : Nat) (lists : FreeLists) : Checked Bool :=
  let order := getAllocOrder nPages
  (alignBlockChecked whereAddr order).bind fun blockStart =>
    (listAt lists order).bind fun blocks =>
      if blockStart ∈ blocks then .ok false else isAllocatedAbove whereAddr lists (higherOrders order)

-- cur is the block_start of the node it points to, or none for NULL.
structure Search where
  foundBlock : Bool
  splitOrder : Nat
  cur : Option Addr
deriving DecidableEq, Repr

-- The walk over one list leaves cur at the block it looks for or at NULL. A block found
-- earlier stays found, but cur does not stay with it.
def searchOrder (whereAddr : Addr) (lists : FreeLists) (search : Search) (i : Nat) : Checked Search :=
  (listAt lists i).bind fun blocks =>
    if blocks = [] then .ok search
    else
      (alignBlockChecked whereAddr i).map fun tmpBlkStart =>
        if tmpBlkStart ∈ blocks then ⟨true, i, some tmpBlkStart⟩ else { search with cur := none }

def searchParent (whereAddr : Addr) (order : Nat) (lists : FreeLists) : Checked Search :=
  (higherOrders order).foldlM (searchOrder whereAddr lists) ⟨false, order, none⟩

-- The loop counts i up, not down. The found node stays linked; it is followed here by its
-- block_start, since nothing else of it decides how the loop goes on.
def splitBlocks (whereAddr : Addr) (order i : Nat) (cur : Addr) (lists : FreeLists) : Checked FreeLists :=
  if order + 1 ≤ i then
    if i - 1 + 12 < 31 then
      let newBlock := alignBlock cur (i - 1) ^^^ intBit (i - 1)
      let cur := alignBlock cur (i - 1)
      let kept := if alignBlock whereAddr (i - 1) = newBlock then newBlock else cur
      let other := if alignBlock whereAddr (i - 1) = newBlock then cur else newBlock
      (listAt lists (i - 1)).bind fun blocks =>
        splitBlocks whereAddr order (i + 1) kept (setList lists (i - 1) (other :: blocks))
    else .error (.overflow (i - 1 + 12))
  else .ok lists
termination_by 31 - i
decreasing_by omega

def reserve (whereAddr : Addr) (nPages : Nat) (lists : FreeLists) : Checked (Bool × FreeLists) :=
  let order := getAllocOrder nPages
  (alignBlockChecked whereAddr order).bind fun blockStart =>
    (listAt lists order).bind fun blocks =>
      if blockStart ∈ blocks then .ok (true, setList lists order (blocks.erase blockStart))
      else
        (searchParent whereAddr order lists).bind fun search =>
          if search.foundBlock = false then .ok (false, lists)
          else
            match search.cur with
            | none => .error .null
            | some cur => (splitBlocks whereAddr order search.splitOrder cur lists).map fun after => (true, after)

abbrev BlockListed (whereAddr : Addr) (lists : FreeLists) (order : Nat) : Prop := alignBlock whereAddr order ∈ lists order

-- A larger block around the address is listed where reserve and is_allocated look for one.
def ParentListed (whereAddr : Addr) (lists : FreeLists) (order : Nat) : Prop :=
  ∃ i ∈ higherOrders order, BlockListed whereAddr lists i

-- No list that the search looks at after that block's holds anything.
def ParentLast (whereAddr : Addr) (lists : FreeLists) (order : Nat) : Prop :=
  ∃ i ∈ higherOrders order, BlockListed whereAddr lists i ∧ ∀ j ∈ higherOrders order, i < j → lists j = []

theorem mem_higher_orders (order i : Nat) : i ∈ higherOrders order ↔ order < i ∧ i < allocMaxOrder := by
  rw [higherOrders, List.mem_range'_1]
  omega

section
variable (whereAddr : Addr) (lists : FreeLists)

theorem is_allocated_above_eq (orders : List Nat) (small : ∀ i ∈ orders, i ≤ allocMaxOrder) :
    isAllocatedAbove whereAddr lists orders = .ok (decide (∀ i ∈ orders, ¬ BlockListed whereAddr lists i)) := by
  induction orders with
  | nil => rfl
  | cons i rest ih =>
      have later := ih (fun j member => small j (List.mem_cons_of_mem i member))
      have inside := small i List.mem_cons_self
      rw [isAllocatedAbove, list_at_inside lists i inside, align_block_inside whereAddr i inside]
      simp only [Except.bind, later, List.forall_mem_cons]
      by_cases listed : BlockListed whereAddr lists i
      · have some : lists i ≠ [] := List.ne_nil_of_mem listed
        rw [if_neg some, if_pos listed, decide_eq_false (fun all => all.1 listed)]
      · have rest : decide (∀ j ∈ rest, ¬ BlockListed whereAddr lists j) =
            decide (¬ BlockListed whereAddr lists i ∧ ∀ j ∈ rest, ¬ BlockListed whereAddr lists j) :=
          decide_eq_decide.mpr ⟨fun all => ⟨listed, all⟩, fun all => all.2⟩
        rw [if_neg listed, ite_self, rest]

theorem is_allocated_cases (nPages : Nat) (small : getAllocOrder nPages ≤ allocMaxOrder) :
    ((BlockListed whereAddr lists (getAllocOrder nPages) ∨ ParentListed whereAddr lists (getAllocOrder nPages)) ∧
        isAllocated whereAddr nPages lists = .ok false) ∨
      (¬ BlockListed whereAddr lists (getAllocOrder nPages) ∧ ¬ ParentListed whereAddr lists (getAllocOrder nPages) ∧
        isAllocated whereAddr nPages lists = .ok true) := by
  have inside : ∀ i ∈ higherOrders (getAllocOrder nPages), i ≤ allocMaxOrder := fun i member =>
    Nat.le_of_lt ((mem_higher_orders _ i).mp member).2
  rw [isAllocated, align_block_inside whereAddr _ small, list_at_inside lists _ small]
  simp only [Except.bind, is_allocated_above_eq whereAddr lists _ inside]
  by_cases listed : BlockListed whereAddr lists (getAllocOrder nPages)
  · exact .inl ⟨.inl listed, if_pos listed⟩
  · rw [if_neg listed]
    by_cases parent : ParentListed whereAddr lists (getAllocOrder nPages)
    · obtain ⟨i, member, parentListed⟩ := parent
      exact .inl ⟨.inr ⟨i, member, parentListed⟩, congrArg Except.ok (decide_eq_false (fun all => all i member parentListed))⟩
    · refine .inr ⟨listed, parent, congrArg Except.ok (decide_eq_true (fun i member parentListed => ?_))⟩
      exact parent ⟨i, member, parentListed⟩

theorem search_order_cases (search : Search) (i : Nat) (small : i ≤ allocMaxOrder) :
    (lists i = [] ∧ searchOrder whereAddr lists search i = .ok search) ∨
      (BlockListed whereAddr lists i ∧
        searchOrder whereAddr lists search i = .ok ⟨true, i, some (alignBlock whereAddr i)⟩) ∨
      (lists i ≠ [] ∧ ¬ BlockListed whereAddr lists i ∧
        searchOrder whereAddr lists search i = .ok { search with cur := none }) := by
  rw [searchOrder, list_at_inside lists i small, align_block_inside whereAddr i small]
  by_cases empty : lists i = []
  · exact .inl ⟨empty, if_pos empty⟩
  · by_cases listed : BlockListed whereAddr lists i
    · refine .inr (.inl ⟨listed, (if_neg empty).trans (congrArg Except.ok (if_pos listed))⟩)
    · refine .inr (.inr ⟨empty, listed, (if_neg empty).trans (congrArg Except.ok (if_neg listed))⟩)

-- What the search knows of the lists it has looked at. The cursor is at a block only if no
-- list after that block's holds anything.
structure Searched (seen : List Nat) (search : Search) : Prop where
  found : search.foundBlock = true ↔ ∃ i ∈ seen, BlockListed whereAddr lists i
  split : search.foundBlock = true → search.splitOrder ∈ seen
  cursor : search.cur ≠ none ↔ ∃ i ∈ seen, BlockListed whereAddr lists i ∧ ∀ j ∈ seen, i < j → lists j = []

theorem searched_step (seen : List Nat) (search : Search) (i : Nat) (small : i ≤ allocMaxOrder)
    (ahead : ∀ j ∈ seen, j < i) (before : Searched whereAddr lists seen search) :
    ∃ next, searchOrder whereAddr lists search i = .ok next ∧ Searched whereAddr lists (seen ++ [i]) next := by
  obtain ⟨empty, same⟩ | ⟨listed, at_⟩ | ⟨some, unlisted, lost⟩ := search_order_cases whereAddr lists search i small
  · have unlisted : ¬ BlockListed whereAddr lists i := fun listed => List.ne_nil_of_mem listed empty
    refine ⟨search, same, ⟨?_, fun found => List.mem_append_left _ (before.split found), ?_⟩⟩
    · simp only [before.found, List.mem_append, List.mem_singleton, or_and_right, exists_or, exists_eq_left, unlisted, or_false]
    · simp only [before.cursor, List.mem_append, List.mem_singleton, or_and_right, exists_or, exists_eq_left, unlisted,
        false_and, or_false]
      refine exists_congr fun j => and_congr_right fun _ => and_congr_right fun _ => ⟨?_, ?_⟩
      · rintro earlier k (member | rfl) above
        · exact earlier k member above
        · exact empty
      · exact fun all k member => all k (.inl member)
  · refine ⟨_, at_, ⟨?_, fun _ => by simp, ?_⟩⟩
    · exact iff_of_true rfl ⟨i, by simp, listed⟩
    · simp only [ne_eq, reduceCtorEq, not_false_eq_true, true_iff]
      refine ⟨i, by simp, listed, fun j member above => ?_⟩
      rcases List.mem_append.mp member with earlier | last
      · exact absurd (ahead j earlier) (by omega)
      · exact absurd (List.mem_singleton.mp last) (by omega)
  · refine ⟨_, lost, ⟨?_, fun found => List.mem_append_left _ (before.split found), ?_⟩⟩
    · simp only [before.found, List.mem_append, List.mem_singleton, or_and_right, exists_or, exists_eq_left, unlisted, or_false]
    · simp only [ne_eq, not_true_eq_false, false_iff]
      rintro ⟨j, member, listed, after⟩
      rcases List.mem_append.mp member with earlier | last
      · exact some (after i (by simp) (ahead j earlier))
      · exact unlisted (List.mem_singleton.mp last ▸ listed)

theorem searched_all (orders seen : List Nat) (search : Search) (small : ∀ i ∈ orders, i ≤ allocMaxOrder)
    (increasing : (seen ++ orders).Pairwise (· < ·)) (before : Searched whereAddr lists seen search) :
    ∃ last, orders.foldlM (searchOrder whereAddr lists) search = .ok last ∧ Searched whereAddr lists (seen ++ orders) last := by
  induction orders generalizing seen search with
  | nil => exact ⟨search, rfl, by simpa using before⟩
  | cons i rest ih =>
      have ahead : ∀ j ∈ seen, j < i := fun j member =>
        (List.pairwise_append.mp increasing).2.2 j member i List.mem_cons_self
      obtain ⟨next, step, searched⟩ := searched_step whereAddr lists seen search i (small i List.mem_cons_self) ahead before
      have joined : seen ++ [i] ++ rest = seen ++ i :: rest := by simp
      obtain ⟨last, folded, all⟩ := ih (seen ++ [i]) next (fun j member => small j (List.mem_cons_of_mem i member))
        (by rw [joined]; exact increasing) searched
      refine ⟨last, ?_, joined ▸ all⟩
      rw [List.foldlM_cons, step]
      exact folded

theorem search_parent_searched (order : Nat) :
    ∃ search, searchParent whereAddr order lists = .ok search ∧ Searched whereAddr lists (higherOrders order) search := by
  have initial : Searched whereAddr lists [] ⟨false, order, none⟩ := ⟨by simp, by simp, by simp⟩
  exact searched_all whereAddr lists (higherOrders order) [] _
    (fun i member => Nat.le_of_lt ((mem_higher_orders order i).mp member).2) List.pairwise_lt_range' initial

-- Counting up, the loop meets no condition that ends it before align_block shifts too far.
theorem split_blocks_overflow (order i : Nat) (cur : Addr) (above : order < i) (small : i ≤ 20) :
    splitBlocks whereAddr order i cur lists = .error (.overflow 31) := by
  obtain ⟨left, leftEq⟩ : ∃ left, 20 - i = left := ⟨_, rfl⟩
  induction left generalizing i cur lists with
  | zero =>
      obtain rfl : i = 20 := by omega
      rw [splitBlocks, if_pos (Nat.succ_le_of_lt above), if_neg (by omega)]
  | succ left ih =>
      rw [splitBlocks, if_pos (Nat.succ_le_of_lt above), if_pos (by omega), list_at_inside lists (i - 1) (by unfold allocMaxOrder; omega)]
      exact ih _ (i + 1) _ (by omega) (by omega) (by omega)

-- Everything reserve can do: a block of the request's own order is unlinked, a larger one
-- makes the call fail on NULL or past the lists, and otherwise nothing happens.
theorem reserve_cases (nPages : Nat) (small : getAllocOrder nPages ≤ allocMaxOrder) :
    (BlockListed whereAddr lists (getAllocOrder nPages) ∧ reserve whereAddr nPages lists = .ok (true,
        setList lists (getAllocOrder nPages)
          ((lists (getAllocOrder nPages)).erase (alignBlock whereAddr (getAllocOrder nPages))))) ∨
      ¬ BlockListed whereAddr lists (getAllocOrder nPages) ∧
        (¬ ParentListed whereAddr lists (getAllocOrder nPages) ∧ reserve whereAddr nPages lists = .ok (false, lists) ∨
          ParentLast whereAddr lists (getAllocOrder nPages) ∧ reserve whereAddr nPages lists = .error (.overflow 31) ∨
          ParentListed whereAddr lists (getAllocOrder nPages) ∧ ¬ ParentLast whereAddr lists (getAllocOrder nPages) ∧
            reserve whereAddr nPages lists = .error .null) := by
  by_cases listed : BlockListed whereAddr lists (getAllocOrder nPages)
  · refine .inl ⟨listed, ?_⟩
    rw [reserve, align_block_inside whereAddr _ small, list_at_inside lists _ small]
    exact if_pos listed
  · obtain ⟨search, searchEq, searched⟩ := search_parent_searched whereAddr lists (getAllocOrder nPages)
    have unlisted : reserve whereAddr nPages lists =
        if search.foundBlock = false then .ok (false, lists)
        else match search.cur with
          | none => .error .null
          | some cur => (splitBlocks whereAddr (getAllocOrder nPages) search.splitOrder cur lists).map fun after => (true, after) := by
      rw [reserve, align_block_inside whereAddr _ small, list_at_inside lists _ small]
      simp only [Except.bind]
      rw [if_neg listed, searchEq]
    rw [unlisted]
    refine .inr ⟨listed, ?_⟩
    cases foundEq : search.foundBlock with
    | false => exact .inl ⟨fun parent => by simp [searched.found.mpr parent] at foundEq, rfl⟩
    | true =>
        have range := (mem_higher_orders _ _).mp (searched.split foundEq)
        unfold allocMaxOrder at range
        cases curEq : search.cur with
        | none =>
            exact .inr (.inr ⟨searched.found.mp foundEq, fun last => searched.cursor.mpr last curEq, rfl⟩)
        | some cur =>
            refine .inr (.inl ⟨searched.cursor.mp (by simp [curEq]), ?_⟩)
            rw [if_neg Bool.noConfusion]
            dsimp only
            rw [split_blocks_overflow whereAddr lists _ search.splitOrder cur range.1 (by omega)]
            rfl

-- Where reserve finds a larger block it does not refuse, although it does not return either.
theorem refusals_agree (nPages : Nat) (fits : nPages ≤ 2 ^ allocMaxOrder) :
    ((∃ after, reserve whereAddr nPages lists = .ok (false, after)) ↔ isAllocated whereAddr nPages lists = .ok true) ∧
      ∀ after, reserve whereAddr nPages lists = .ok (false, after) → after = lists := by
  have small := get_alloc_order_le nPages fits
  obtain ⟨someListed, freeEq⟩ | ⟨listed, parent, takenEq⟩ := is_allocated_cases whereAddr lists nPages small
  · rw [freeEq]
    obtain ⟨_, done⟩ | ⟨listed, ⟨parent, _⟩ | ⟨_, fault⟩ | ⟨_, _, fault⟩⟩ := reserve_cases whereAddr lists nPages small
    · rw [done]
      simp
    · exact absurd someListed (not_or.mpr ⟨listed, parent⟩)
    · rw [fault]
      simp
    · rw [fault]
      simp
  · rw [takenEq]
    obtain ⟨found, _⟩ | ⟨_, ⟨_, refused⟩ | ⟨last, _⟩ | ⟨found, _⟩⟩ := reserve_cases whereAddr lists nPages small
    · exact absurd found listed
    · rw [refused]
      exact ⟨iff_of_true ⟨lists, rfl⟩ rfl, fun after same => (Prod.mk.inj (Except.ok.inj same)).2.symm⟩
    · obtain ⟨i, member, parentListed, _⟩ := last
      exact absurd ⟨i, member, parentListed⟩ parent
    · exact absurd found parent

end

def fourPages : FreeLists := fun order => if order = 2 then [0x4000] else []

theorem four_pages_refuse :
    ((∃ after, reserve 0x9000 1 fourPages = .ok (false, after)) ↔ isAllocated 0x9000 1 fourPages = .ok true) ∧
      ∀ after, reserve 0x9000 1 fourPages = .ok (false, after) → after = fourPages :=
  refusals_agree 0x9000 fourPages 1 (by decide)

example : isAllocated 0x9000 1 fourPages = .ok true ∧ isAllocated 0x5000 1 fourPages = .ok false := by decide

end Kraftwerk.Pmem
