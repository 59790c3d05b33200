import Kraftwerk.Vmem.BootReservation
import Kraftwerk.Lib.Chain

set_option autoImplicit false

-- The four walks over a region's list, and the lists on which they come to an end.
namespace Kraftwerk.Vmem.Linked

-- No path through the body of this loop moves to the next node.
def isAllocatedFrom (whereAddr : Addr) (nPages : BitVec 32) : Nat → Ptr → Memory → Option Bool
  | 0, _, _ => none
  | fuel + 1, cur, memory =>
      if cur = 0 then some true
      else if !(memory.nodes cur).free then none
      else if fitsReserve (memory.nodes cur).toNode whereAddr nPages then some (!(memory.nodes cur).free)
      else isAllocatedFrom whereAddr nPages fuel cur memory

def isAllocatedRegion (fuel : Nat) (reg : RegDesc) (whereAddr : Addr) (nPages : BitVec 32) (memory : Memory) : Option Bool :=
  isAllocatedFrom whereAddr nPages fuel reg.list memory

inductive Request where
  | allocateRegion (nPages : BitVec 32)
  | isAllocatedRegion (whereAddr : Addr) (nPages : BitVec 32)
  | reserveRegion (whereAddr : Addr) (nPages : BitVec 32)
  | freeRegion (whereAddr : Addr)

-- Whether the body of the loop returns at a node.
def Request.leaves (node : LlNode) : Request → Bool
  | .allocateRegion nPages => node.free && decide (nPages.setWidth 64 ≤ node.size)
  | .isAllocatedRegion whereAddr nPages => node.free && fitsReserve node.toNode whereAddr nPages
  | .reserveRegion whereAddr nPages => node.free && fitsReserve node.toNode whereAddr nPages
  | .freeRegion whereAddr => !node.free && decide (node.allocSt = whereAddr)

-- Whether it moves to the next node where it does not.
def Request.advances (node : LlNode) : Request → Bool
  | .allocateRegion _ => node.free
  | .isAllocatedRegion _ _ => false
  | .reserveRegion _ _ => node.free
  | .freeRegion _ => !node.free

def Request.move (memory : Memory) (request : Request) (cur : Ptr) : Ptr :=
  if request.advances (memory.nodes cur) then (memory.nodes cur).next else cur

-- The nodes that a call looks at, one for each time the body of its loop is entered.
def Request.visits (memory : Memory) (request : Request) (fuel : Nat) (reg : RegDesc) : List Ptr :=
  Walk.visited 0 (request.move memory) (fun cur => request.leaves (memory.nodes cur)) fuel reg.list

section
variable (kmalloc : Kmalloc) (memory : Memory)

def Returns (fuel : Nat) (reg : RegDesc) : Request → Prop
  | .allocateRegion nPages => allocateRegion kmalloc fuel reg nPages memory ≠ none
  | .isAllocatedRegion whereAddr nPages => isAllocatedRegion fuel reg whereAddr nPages memory ≠ none
  | .reserveRegion whereAddr nPages => reserveRegion kmalloc fuel reg whereAddr nPages memory ≠ none
  | .freeRegion whereAddr => freeRegion fuel reg whereAddr memory ≠ none

-- What is done with the node found needs storage where it is cut, and where it is freed
-- the nodes behind it that are looked at.
def Request.Completes (node : LlNode) : Request → Prop
  | .allocateRegion nPages => nPages.setWidth 64 < node.size → kmalloc.answer memory ≠ 0
  | .isAllocatedRegion _ _ => True
  | .reserveRegion _ nPages => nPages.setWidth 64 < node.size → kmalloc.answer memory ≠ 0
  | .freeRegion _ => node.next ≠ 0 ∧ ((memory.nodes node.next).free = true → (memory.nodes node.next).next ≠ 0)

-- The nodes of a list that are passed on the way to the one where the walk returns.
def Walkable (request : Request) : List Ptr → Prop
  | [] => True
  | cur :: rest =>
      if request.leaves (memory.nodes cur) then request.Completes kmalloc memory (memory.nodes cur)
      else request.advances (memory.nodes cur) = true ∧ Walkable request rest

structure OnePass (reg : RegDesc) (pointers : List Ptr) (request : Request) : Prop where
  returns : Returns kmalloc memory (pointers.length + 1) reg request
  once : ∀ fuel, (request.visits memory fuel reg).Nodup

-- Where a loop ends, and that what is done there does not fail.
def EndsWell (request : Request) (fuel : Nat) (cur : Ptr) : Prop :=
  ∃ last, Walk.endsAt 0 (request.move memory) (fun cur => request.leaves (memory.nodes cur)) fuel cur = some last ∧
    (last = 0 ∨ request.Completes kmalloc memory (memory.nodes last))

-- What a round of the loop of a request does, by the node it is made at.
structure Rounds (request : Request) (returns : Nat → Ptr → Ptr → Prop) : Prop where
  out : ∀ prev cur, ¬ returns 0 prev cur
  null : ∀ fuel prev, returns (fuel + 1) prev 0
  here : ∀ fuel prev cur, cur ≠ 0 → request.leaves (memory.nodes cur) = true →
    (returns (fuel + 1) prev cur ↔ request.Completes kmalloc memory (memory.nodes cur))
  on : ∀ fuel prev cur, cur ≠ 0 → request.leaves (memory.nodes cur) = false → request.advances (memory.nodes cur) = true →
    (returns (fuel + 1) prev cur ↔ returns fuel cur (memory.nodes cur).next)
  stuck : ∀ fuel prev cur, cur ≠ 0 → request.leaves (memory.nodes cur) = false → request.advances (memory.nodes cur) = false →
    returns (fuel + 1) prev cur → returns fuel prev cur

section
variable (request : Request) (fuel : Nat) (cur : Ptr)

theorem ends_well_here (notNull : cur ≠ 0) (left : request.leaves (memory.nodes cur) = true) :
    EndsWell kmalloc memory request (fuel + 1) cur ↔ request.Completes kmalloc memory (memory.nodes cur) := by
  have ends : Walk.endsAt 0 (request.move memory) (fun cur => request.leaves (memory.nodes cur)) (fuel + 1) cur = some cur := by
    rw [Walk.endsAt, if_neg notNull, if_pos left]
  constructor
  · rintro ⟨last, found, completes⟩
    obtain rfl := Option.some.inj (ends.symm.trans found)
    exact completes.resolve_left notNull
  · intro completes
    exact ⟨cur, ends, .inr completes⟩

theorem ends_well_on (notNull : cur ≠ 0) (stays : request.leaves (memory.nodes cur) = false)
    (advances : request.advances (memory.nodes cur) = true) :
    EndsWell kmalloc memory request (fuel + 1) cur ↔ EndsWell kmalloc memory request fuel (memory.nodes cur).next := by
  have onward : request.move memory cur = (memory.nodes cur).next := if_pos advances
  rw [EndsWell, EndsWell, Walk.endsAt, if_neg notNull, stays, if_neg Bool.false_ne_true, onward]

theorem ends_well_stuck (notNull : cur ≠ 0) (stays : request.leaves (memory.nodes cur) = false)
    (stuck : request.advances (memory.nodes cur) = false) : ¬ EndsWell kmalloc memory request fuel cur := by
  rintro ⟨last, ends, _⟩
  have same : request.move memory cur = cur := if_neg (by rw [stuck]; exact Bool.false_ne_true)
  rw [Walk.ends_at_stuck 0 _ _ cur notNull stays same fuel] at ends
  cases ends

theorem rounds_end (returns : Nat → Ptr → Ptr → Prop) (rounds : Rounds kmalloc memory request returns) (prev : Ptr) :
    returns fuel prev cur ↔ EndsWell kmalloc memory request fuel cur := by
  induction fuel generalizing prev cur with
  | zero =>
      refine ⟨fun done => absurd done (rounds.out prev cur), ?_⟩
      rintro ⟨last, ends, _⟩
      cases ends
  | succ fuel ih =>
      by_cases null : cur = 0
      · rw [null]
        exact ⟨fun _ => ⟨0, if_pos rfl, .inl rfl⟩, fun _ => rounds.null fuel prev⟩
      · cases left : request.leaves (memory.nodes cur) with
        | true => rw [rounds.here fuel prev cur null left, ends_well_here kmalloc memory request fuel cur null left]
        | false =>
            cases advances : request.advances (memory.nodes cur) with
            | true =>
                rw [rounds.on fuel prev cur null left advances, ends_well_on kmalloc memory request fuel cur null left advances, ih]
            | false =>
                have stuck := fun fuel => ends_well_stuck kmalloc memory request fuel cur null left advances
                refine ⟨fun done => ?_, fun ends => absurd ends (stuck (fuel + 1))⟩
                exact absurd ((ih cur prev).mp (rounds.stuck fuel prev cur null left advances done)) (stuck fuel)

end

theorem bisect_node_fails (cur : Ptr) (newSize : BitVec 64) :
    bisectNode kmalloc cur newSize memory = none ↔ kmalloc.answer memory = 0 := by
  rw [bisectNode]
  by_cases null : kmalloc.answer memory = 0
  · simp [null]
  · rw [if_neg null]
    exact ⟨fun fails => absurd fails (Option.some_ne_none _), fun answers => absurd answers null⟩

theorem allocate_rounds (nPages : BitVec 32) : Rounds kmalloc memory (.allocateRegion nPages)
    (fun fuel _ cur => allocateFrom kmalloc nPages fuel cur memory ≠ none) where
  out := fun _ _ returns => returns rfl
  null := fun _ _ => Option.some_ne_none _
  here := by
    intro fuel _ cur notNull left
    obtain ⟨free, enough⟩ := Bool.and_eq_true_iff.mp left
    rw [allocateFrom, if_neg notNull, free, if_neg (by decide), Request.Completes]
    by_cases same : (memory.nodes cur).size = nPages.setWidth 64
    · rw [if_pos same, same]
      exact ⟨fun _ less => absurd less (BitVec.lt_irrefl _), fun _ => Option.some_ne_none _⟩
    · have larger : nPages.setWidth 64 < (memory.nodes cur).size :=
        BitVec.lt_of_le_ne (of_decide_eq_true enough) (Ne.symm same)
      rw [if_neg same, if_pos larger, ne_eq, Option.map_eq_none_iff, bisect_node_fails]
      exact ⟨fun answers _ => answers, fun answers => answers larger⟩
  on := by
    intro fuel _ cur notNull stays free
    rw [Request.advances] at free
    rw [Request.leaves, free, Bool.true_and, decide_eq_false_iff_not] at stays
    have different : (memory.nodes cur).size ≠ nPages.setWidth 64 := fun same => stays (same ▸ BitVec.le_refl _)
    have smaller : ¬ nPages.setWidth 64 < (memory.nodes cur).size := fun less => stays (BitVec.le_of_lt less)
    rw [allocateFrom, if_neg notNull, free, if_neg (by decide), if_neg different, if_neg smaller]
  stuck := by
    intro fuel _ cur notNull _ taken returns
    rw [Request.advances] at taken
    rw [allocateFrom, if_neg notNull, taken] at returns
    exact absurd rfl returns

theorem is_allocated_rounds (whereAddr : Addr) (nPages : BitVec 32) : Rounds kmalloc memory (.isAllocatedRegion whereAddr nPages)
    (fun fuel _ cur => isAllocatedFrom whereAddr nPages fuel cur memory ≠ none) where
  out := fun _ _ returns => returns rfl
  null := fun _ _ => Option.some_ne_none _
  here := by
    intro fuel _ cur notNull left
    obtain ⟨free, fits⟩ := Bool.and_eq_true_iff.mp left
    rw [isAllocatedFrom, if_neg notNull, free, if_neg (by decide), if_pos fits]
    exact ⟨fun _ => trivial, fun _ => Option.some_ne_none _⟩
  on := fun _ _ _ _ _ advances => Bool.noConfusion advances
  stuck := by
    intro fuel _ cur notNull stays _ returns
    rw [isAllocatedFrom, if_neg notNull] at returns
    cases free : (memory.nodes cur).free with
    | false =>
        rw [free] at returns
        exact absurd rfl returns
    | true =>
        rw [Request.leaves, free, Bool.true_and] at stays
        rwa [free, if_neg (by decide), stays, if_neg Bool.false_ne_true] at returns

theorem reserve_cut_returns (cur : Ptr) (whereAddr : Addr) (nPages : BitVec 32)
    (fits : fitsReserve (memory.nodes cur).toNode whereAddr nPages = true) :
    reserveCut kmalloc cur whereAddr nPages memory ≠ none ↔
      (nPages.setWidth 64 < (memory.nodes cur).size → kmalloc.answer memory ≠ 0) := by
  rw [reserveCut, if_neg (fits_starts _ whereAddr nPages fits), reserveNode]
  by_cases larger : nPages.setWidth 64 < (memory.nodes cur).size
  · rw [if_pos larger, ne_eq, Option.map_eq_none_iff, bisect_node_fails]
    exact ⟨fun answers _ => answers, fun answers => answers larger⟩
  · rw [if_neg larger]
    exact ⟨fun _ less => absurd less larger, fun _ => Option.some_ne_none _⟩

theorem reserve_rounds (whereAddr : Addr) (nPages : BitVec 32) : Rounds kmalloc memory (.reserveRegion whereAddr nPages)
    (fun fuel _ cur => reserveFrom kmalloc whereAddr nPages fuel cur memory ≠ none) where
  out := fun _ _ returns => returns rfl
  null := fun _ _ => Option.some_ne_none _
  here := by
    intro fuel _ cur notNull left
    obtain ⟨free, fits⟩ := Bool.and_eq_true_iff.mp left
    rw [reserveFrom, if_neg notNull, free, if_neg (by decide), if_pos fits, ne_eq, Option.map_eq_none_iff]
    exact reserve_cut_returns kmalloc memory cur whereAddr nPages fits
  on := by
    intro fuel _ cur notNull stays free
    rw [Request.advances] at free
    rw [Request.leaves, free, Bool.true_and] at stays
    rw [reserveFrom, if_neg notNull, free, if_neg (by decide), stays, if_neg Bool.false_ne_true]
  stuck := by
    intro fuel _ cur notNull _ taken returns
    rw [Request.advances] at taken
    rw [reserveFrom, if_neg notNull, taken] at returns
    exact absurd rfl returns

theorem merge_next_returns (cur : Ptr) : mergeNext cur memory ≠ none ↔
    (memory.nodes cur).next ≠ 0 ∧
      ((memory.nodes (memory.nodes cur).next).free = true → (memory.nodes (memory.nodes cur).next).next ≠ 0) := by
  rw [mergeNext]
  by_cases last : (memory.nodes cur).next = 0
  · rw [if_pos last]
    exact ⟨fun returns => absurd rfl returns, fun linked => absurd last linked.1⟩
  · rw [if_neg last]
    cases free : (memory.nodes (memory.nodes cur).next).free with
    | false => exact ⟨fun _ => ⟨last, fun taken => Bool.noConfusion taken⟩, fun _ => Option.some_ne_none _⟩
    | true =>
        have linked : ∀ change : LlNode → LlNode, ((memory.set cur change).nodes cur) = change (memory.nodes cur) :=
          fun change => by rw [set_nodes, if_pos rfl]
        rw [if_pos rfl]
        dsimp only
        rw [linked]
        by_cases short : (memory.nodes (memory.nodes cur).next).next = 0
        · rw [if_pos short]
          exact ⟨fun returns => absurd rfl returns, fun both => absurd short (both.2 rfl)⟩
        · rw [if_neg short]
          exact ⟨fun _ => ⟨last, fun _ => short⟩, fun _ => Option.some_ne_none _⟩

theorem free_rounds (whereAddr : Addr) : Rounds kmalloc memory (.freeRegion whereAddr)
    (fun fuel prev cur => freeFrom whereAddr fuel prev cur memory ≠ none) where
  out := fun _ _ returns => returns rfl
  null := fun _ _ => Option.some_ne_none _
  here := by
    intro fuel prev cur notNull left
    obtain ⟨taken, found⟩ := Bool.and_eq_true_iff.mp left
    rw [Bool.not_eq_true'] at taken
    rw [freeFrom, if_neg notNull, taken, if_neg Bool.false_ne_true, if_pos (of_decide_eq_true found), ne_eq,
      Option.map_eq_none_iff]
    exact merge_next_returns memory cur
  on := by
    intro fuel prev cur notNull stays taken
    rw [Request.advances] at taken
    rw [Request.leaves, taken, Bool.true_and, decide_eq_false_iff_not] at stays
    rw [Bool.not_eq_true'] at taken
    rw [freeFrom, if_neg notNull, taken, if_neg Bool.false_ne_true, if_neg stays]
  stuck := by
    intro fuel prev cur notNull _ free returns
    rw [Request.advances, Bool.not_eq_false'] at free
    rw [freeFrom, if_neg notNull, free] at returns
    exact absurd rfl returns

theorem returns_iff (fuel : Nat) (reg : RegDesc) (request : Request) :
    Returns kmalloc memory fuel reg request ↔ EndsWell kmalloc memory request fuel reg.list := by
  cases request with
  | allocateRegion nPages => exact rounds_end kmalloc memory _ fuel reg.list _ (allocate_rounds kmalloc memory nPages) 0
  | isAllocatedRegion whereAddr nPages =>
      exact rounds_end kmalloc memory _ fuel reg.list _ (is_allocated_rounds kmalloc memory whereAddr nPages) 0
  | reserveRegion whereAddr nPages =>
      exact rounds_end kmalloc memory _ fuel reg.list _ (reserve_rounds kmalloc memory whereAddr nPages) 0
  | freeRegion whereAddr => exact rounds_end kmalloc memory _ fuel reg.list _ (free_rounds kmalloc memory whereAddr) 0

-- The lists that can be walked are those along which the loop moves to where it ends well.
theorem walkable_iff (request : Request) (head : Ptr) (pointers : List Ptr)
    (chain : Walk.Chain 0 (fun node => (memory.nodes node).next) head pointers) : Walkable kmalloc memory request pointers ↔
      ∃ last, Walk.Passes 0 (fun node => (memory.nodes node).next) (request.move memory)
        (fun cur => request.leaves (memory.nodes cur)) pointers last ∧
        (last = 0 ∨ request.Completes kmalloc memory (memory.nodes last)) := by
  induction pointers generalizing head with
  | nil => exact ⟨fun _ => ⟨0, rfl, .inl rfl⟩, fun _ => trivial⟩
  | cons node rest ih =>
      have distinct := Walk.chain_nodup 0 _ head (node :: rest) chain
      obtain ⟨rfl, notNull, later⟩ := chain
      simp only [Walkable, Walk.Passes]
      cases left : request.leaves (memory.nodes head) with
      | true =>
          simp only [if_true]
          constructor
          · intro completes
            exact ⟨head, rfl, .inr completes⟩
          · rintro ⟨last, rfl, completes⟩
            exact completes.resolve_left notNull
      | false =>
          have moves : request.move memory head = (memory.nodes head).next ↔ request.advances (memory.nodes head) = true := by
            rw [Request.move]
            cases advances : request.advances (memory.nodes head) with
            | true => exact ⟨fun _ => rfl, fun _ => if_pos rfl⟩
            | false =>
                refine ⟨fun same => ?_, fun onward => Bool.noConfusion onward⟩
                rw [if_neg Bool.false_ne_true] at same
                cases rest with
                | nil => exact absurd (same.trans later) notNull
                | cons second tail =>
                    exact absurd (same.trans later.1) (List.ne_of_not_mem_cons (List.nodup_cons.mp distinct).1)
          simp only [Bool.false_eq_true, if_false, moves, ih _ later]
          constructor
          · rintro ⟨advances, last, passes, ends⟩
            exact ⟨last, ⟨advances, passes⟩, ends⟩
          · rintro ⟨last, ⟨advances, passes⟩, ends⟩
            exact ⟨advances, last, passes, ends⟩

theorem one_pass_iff (reg : RegDesc) (pointers : List Ptr) (request : Request)
    (chain : Walk.Chain 0 (fun node => (memory.nodes node).next) reg.list pointers) :
    (OnePass kmalloc memory reg pointers request ↔ Walkable kmalloc memory request pointers) ∧
      (¬ Walkable kmalloc memory request pointers → ∀ fuel, ¬ Returns kmalloc memory fuel reg request) := by
  have follows : ∀ node, request.move memory node = node ∨ request.move memory node = (memory.nodes node).next := by
    intro node
    rw [Request.move]
    cases request.advances (memory.nodes node) with
    | true => exact .inr rfl
    | false => exact .inl rfl
  have walks : ∀ fuel, Returns kmalloc memory fuel reg request → Walkable kmalloc memory request pointers := by
    intro fuel returns
    obtain ⟨last, ends, completes⟩ := (returns_iff kmalloc memory fuel reg request).mp returns
    have passes := Walk.passes_of_ends 0 _ _ _ reg.list last pointers fuel chain follows ends
    exact (walkable_iff kmalloc memory request reg.list pointers chain).mpr ⟨last, passes, completes⟩
  refine ⟨⟨fun onePass => walks _ onePass.returns, fun walkable => ?_⟩, fun unwalkable fuel returns => ?_⟩
  · obtain ⟨last, passes, completes⟩ := (walkable_iff kmalloc memory request reg.list pointers chain).mp walkable
    refine ⟨?_, fun fuel => ?_⟩
    · have ends := Walk.ends_of_passes 0 _ _ _ reg.list last pointers _ chain passes (Nat.lt_succ_self pointers.length)
      exact (returns_iff kmalloc memory _ reg request).mpr ⟨last, ends, completes⟩
    · have visits := Walk.visited_prefix 0 _ _ _ reg.list last pointers fuel chain passes
      exact visits.sublist.nodup (Walk.chain_nodup 0 _ reg.list pointers chain)
  · exact unwalkable (walks fuel returns)

end

-- The list that reserve_kern(2^64 - 512 * 4096, 512) leaves: the first 512 pages are free and the
-- others are not.
def topReservedRegion : RegDesc := ⟨hhStart, 0x800000000, 4096⟩

def topReservedMemory : Memory where
  nodes := fun node =>
    if node = 4096 then ⟨⟨hhStart, 512, true⟩, 8192⟩ else ⟨⟨hhStart + 0x200000, 0x7FFFFFE00, false⟩, 0⟩
  mallocs := 2
  live := [8192, 4096]

example : ((boot rowKmalloc 2 emptyMemory).bind fun start =>
    (reserveRegion rowKmalloc 2 start.hhReg (-0x200000) 512 start.memory).map fun reserved =>
      [reserved.2.nodes start.hhReg.list, reserved.2.nodes (reserved.2.nodes start.hhReg.list).next]) =
    some [⟨⟨hhStart, 512, true⟩, 64⟩, ⟨⟨hhStart + 0x200000, 0x7FFFFFE00, false⟩, 0⟩] := by decide

theorem top_reserved_walks :
    OnePass rowKmalloc topReservedMemory topReservedRegion [4096, 8192] (.allocateRegion 3) ∧
      ∀ fuel, ¬ Returns rowKmalloc topReservedMemory fuel topReservedRegion (.isAllocatedRegion (hhStart + 0x200000) 1) := by
  have chain : Walk.Chain 0 (fun node => (topReservedMemory.nodes node).next) topReservedRegion.list [4096, 8192] :=
    ⟨rfl, by decide, rfl, by decide, rfl⟩
  constructor
  · refine (one_pass_iff rowKmalloc topReservedMemory topReservedRegion [4096, 8192] (.allocateRegion 3) chain).1.mpr ?_
    exact fun _ => by decide
  · refine (one_pass_iff rowKmalloc topReservedMemory topReservedRegion [4096, 8192] _ chain).2 ?_
    exact fun walkable => Bool.noConfusion walkable.1

-- 513 pages are looked for at the second node for ever.
theorem second_node_stuck :
    ¬ OnePass rowKmalloc topReservedMemory topReservedRegion [4096, 8192] (.allocateRegion 513) ∧
      ∀ fuel, allocateRegion rowKmalloc fuel topReservedRegion 513 topReservedMemory = none := by
  have stuck : ∀ fuel, allocateRegion rowKmalloc fuel topReservedRegion 513 topReservedMemory = none := by
    intro fuel
    cases fuel with
    | zero => rfl
    | succ fuel =>
        have onward : allocateRegion rowKmalloc (fuel + 1) topReservedRegion 513 topReservedMemory =
            allocateFrom rowKmalloc 513 fuel 8192 topReservedMemory := rfl
        rw [onward]
        exact allocate_from_taken rowKmalloc 513 fuel 8192 topReservedMemory (by decide) rfl
  exact ⟨fun onePass => onePass.returns (stuck 3), stuck⟩

end Kraftwerk.Vmem.Linked
