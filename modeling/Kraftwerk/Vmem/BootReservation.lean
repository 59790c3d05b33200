import Kraftwerk.Vmem.Linked
import Kraftwerk.Vmem.RegionRuns

set_option autoImplicit false

-- virtual_memory::initialize and the runs of allocate_kern, reserve_kern and
-- free_kern after it.
namespace Kraftwerk.Vmem.Linked

open Runs

structure Kern where
  hhReg : RegDesc
  memory : Memory
  results : List Allocation

inductive Call where
  | allocateKern (nPages : BitVec 32)
  | reserveKern (whereAddr : Addr) (nPages : BitVec 32)
  | freeKern (whereAddr : Addr)

def step (kmalloc : Kmalloc) (fuel : Nat) (kern : Kern) : Call → Option Kern
  | .allocateKern nPages =>
      (allocateRegion kmalloc fuel kern.hhReg nPages kern.memory).map fun (result, memory) =>
        { kern with memory := memory, results := record result nPages kern.results }
  | .reserveKern whereAddr nPages =>
      (reserveRegion kmalloc fuel kern.hhReg whereAddr nPages kern.memory).map fun (_, memory) =>
        { kern with memory := memory }
  | .freeKern whereAddr =>
      (freeRegion fuel kern.hhReg whereAddr kern.memory).map fun memory => { kern with memory := memory }

-- free_kern is only given what allocate_kern returned.
def FreesReturned (kern : Kern) : Call → Prop
  | .freeKern whereAddr => ∃ allocation ∈ kern.results, allocation.start = whereAddr
  | _ => True

def boot (kmalloc : Kmalloc) (fuel : Nat) (memory : Memory) : Option Kern :=
  (vmemInitialize kmalloc fuel memory).map fun (hhReg, memory) => ⟨hhReg, memory, []⟩

def bootPages : Set Addr := pageRange hhStart 512

def BootPagesKept (kern : Kern) : Prop := ∀ allocation ∈ kern.results, Disjoint (allocationPages allocation) bootPages

-- An allocation of no pages is the only one that takes none.
def Call.Empty : Call → Prop
  | .allocateKern nPages => nPages = 0
  | _ => True

-- Behind a free head no walk gets any further than the head itself could: the next
-- node is taken, or it is no larger and is followed by itself or by a taken node.
structure DeadEnd (memory : Memory) (list : Ptr) (size : BitVec 64) (node : Ptr) : Prop where
  notNull : node ≠ 0
  notHead : node ≠ list
  smaller : (memory.nodes node).free = true → (memory.nodes node).size ≤ size
  loops : (memory.nodes node).free = true → (memory.nodes node).next = node ∨
    (memory.nodes node).next ≠ 0 ∧ (memory.nodes node).next ≠ list ∧ (memory.nodes node).next ∈ memory.live ∧
      (memory.nodes (memory.nodes node).next).free = false

-- free_region adds the size of the node behind the one it links past.
def CanMerge (memory : Memory) (list : Ptr) (size : BitVec 64) (node : Ptr) : Prop :=
  (memory.nodes node).free = true → (memory.nodes node).next = 0 ∨
    DeadEnd memory list (size + (memory.nodes (memory.nodes node).next).size) (memory.nodes node).next

-- The shape of the region's list until the first page is allocated. The head is never
-- given back, so it always starts at HH_START; only free_kern frees it again.
structure Ready (list : Ptr) (memory : Memory) : Prop where
  notNull : list ≠ 0
  live : list ∈ memory.live
  start : (memory.nodes list).allocSt = hhStart
  whenFree : (memory.nodes list).free = true →
    (memory.nodes list).size = 0x800000000 ∧ (memory.nodes list).next = 0 ∨
      DeadEnd memory list (memory.nodes list).size (memory.nodes list).next
  whenTaken : (memory.nodes list).free = false →
    (memory.nodes list).next ≠ list ∧ CanMerge memory list (memory.nodes list).size (memory.nodes list).next

structure KeepsLive (list : Ptr) (memory after : Memory) : Prop where
  nodes : ∀ node ∈ memory.live, node ≠ list → after.nodes node = memory.nodes node
  live : ∀ node ∈ memory.live, node ∈ after.live

theorem dead_end_keeps (list : Ptr) (memory after : Memory) (size bound : BitVec 64) (node : Ptr)
    (dead : DeadEnd memory list size node) (keeps : KeepsLive list memory after)
    (same : after.nodes node = memory.nodes node) (smaller : (memory.nodes node).size ≤ bound) :
    DeadEnd after list bound node where
  notNull := dead.notNull
  notHead := dead.notHead
  smaller := fun _ => same ▸ smaller
  loops := by
    rw [same]
    intro free
    refine (dead.loops free).imp id ?_
    rintro ⟨notNull, notHead, live, taken⟩
    exact ⟨notNull, notHead, keeps.live _ live, (keeps.nodes _ live notHead).symm ▸ taken⟩

theorem dead_end_taken (list : Ptr) (memory : Memory) (size : BitVec 64) (node : Ptr) (notNull : node ≠ 0)
    (notHead : node ≠ list) (taken : (memory.nodes node).free = false) : DeadEnd memory list size node where
  notNull := notNull
  notHead := notHead
  smaller := fun free => by simp [taken] at free
  loops := fun free => by simp [taken] at free

section
variable (kmalloc : Kmalloc)

theorem allocate_from_taken (nPages : BitVec 32) (fuel : Nat) (node : Ptr) (memory : Memory) (notNull : node ≠ 0)
    (taken : (memory.nodes node).free = false) : allocateFrom kmalloc nPages fuel node memory = none := by
  cases fuel with
  | zero => rfl
  | succ fuel => rw [allocateFrom, if_neg notNull, if_pos (by simp [taken])]

theorem reserve_from_taken (whereAddr : Addr) (nPages : BitVec 32) (fuel : Nat) (node : Ptr) (memory : Memory)
    (notNull : node ≠ 0) (taken : (memory.nodes node).free = false) :
    reserveFrom kmalloc whereAddr nPages fuel node memory = none := by
  cases fuel with
  | zero => rfl
  | succ fuel => rw [reserveFrom, if_neg notNull, if_pos (by simp [taken])]

theorem dead_end_allocate (list : Ptr) (memory : Memory) (size : BitVec 64) (node : Ptr) (nPages : BitVec 32) (fuel : Nat)
    (dead : DeadEnd memory list size node) (larger : size < nPages.setWidth 64) :
    allocateFrom kmalloc nPages fuel node memory = none := by
  induction fuel with
  | zero => rfl
  | succ fuel ih =>
      cases free : (memory.nodes node).free with
      | false => exact allocate_from_taken kmalloc nPages _ node memory dead.notNull free
      | true =>
          have small := dead.smaller free
          have different : (memory.nodes node).size ≠ nPages.setWidth 64 := by bv_omega
          have tooSmall : ¬ nPages.setWidth 64 < (memory.nodes node).size := by bv_omega
          rw [allocateFrom, if_neg dead.notNull, if_neg (by simp [free]), if_neg different, if_neg tooSmall]
          obtain again | ⟨notNull, _, _, taken⟩ := dead.loops free
          · rw [again, ih]
          · exact allocate_from_taken kmalloc nPages fuel _ memory notNull taken

theorem allocate_from_cases (nPages : BitVec 32) (fuel : Nat) (cur : Ptr) (memory after : Memory) (result : Option Addr)
    (notNull : cur ≠ 0) (done : allocateFrom kmalloc nPages fuel cur memory = some (result, after)) :
    (memory.nodes cur).free = true ∧
      (((memory.nodes cur).size = nPages.setWidth 64 ∧ result = some (memory.nodes cur).allocSt ∧
          after = memory.set cur fun node => { node with free := false }) ∨
        (nPages.setWidth 64 < (memory.nodes cur).size ∧ ∃ newNode cut, Bisected memory cut cur newNode (nPages.setWidth 64) ∧
          result = some (cut.nodes cur).allocSt ∧ after = cut.set cur fun node => { node with free := false }) ∨
        ((memory.nodes cur).size < nPages.setWidth 64 ∧
          ∃ less, allocateFrom kmalloc nPages less (memory.nodes cur).next memory = some (result, after))) := by
  cases fuel with
  | zero => cases done
  | succ fuel =>
      rw [allocateFrom, if_neg notNull] at done
      split at done
      · cases done
      · rename_i notTaken
        refine ⟨by simpa using notTaken, ?_⟩
        split at done
        · rename_i same
          obtain ⟨rfl, rfl⟩ := Prod.mk.inj (Option.some.inj done)
          exact .inl ⟨same, rfl, rfl⟩
        · rename_i different
          split at done
          · rename_i larger
            obtain ⟨⟨newNode, cut⟩, cutEq, same⟩ := Option.map_eq_some_iff.mp done
            obtain ⟨rfl, rfl⟩ := Prod.mk.inj same
            have bisected := bisect_node_bisected kmalloc cur newNode _ memory cut cutEq
            exact .inr (.inl ⟨larger, newNode, cut, bisected, by simp, rfl⟩)
          · exact .inr (.inr ⟨by bv_omega, fuel, done⟩)

theorem reserve_cut_cases (whereAddr : Addr) (nPages : BitVec 32) (cur : Ptr) (memory after : Memory)
    (fits : fitsReserve (memory.nodes cur).toNode whereAddr nPages = true)
    (done : reserveCut kmalloc cur whereAddr nPages memory = some after) :
    (nPages.setWidth 64 < (memory.nodes cur).size ∧ ∃ newNode cut, Bisected memory cut cur newNode (nPages.setWidth 64) ∧
        after = cut.set newNode fun node => { node with free := false }) ∨
      ((memory.nodes cur).size ≤ nPages.setWidth 64 ∧ after = memory.set cur fun node => { node with free := false }) := by
  rw [reserveCut, if_neg (fits_starts _ whereAddr nPages fits), reserveNode] at done
  split at done
  · rename_i larger
    obtain ⟨⟨newNode, cut⟩, cutEq, rfl⟩ := Option.map_eq_some_iff.mp done
    exact .inl ⟨larger, newNode, cut, bisect_node_bisected kmalloc cur newNode _ memory cut cutEq, rfl⟩
  · rename_i notLarger
    exact .inr ⟨BitVec.not_lt.mp notLarger, (Option.some.inj done).symm⟩

theorem reserve_from_cases (whereAddr : Addr) (nPages : BitVec 32) (fuel : Nat) (cur : Ptr) (memory after : Memory)
    (reserved : Bool) (notNull : cur ≠ 0)
    (done : reserveFrom kmalloc whereAddr nPages fuel cur memory = some (reserved, after)) :
    (memory.nodes cur).free = true ∧
      ((fitsReserve (memory.nodes cur).toNode whereAddr nPages = true ∧
          reserveCut kmalloc cur whereAddr nPages memory = some after) ∨
        ∃ less, less < fuel ∧
          reserveFrom kmalloc whereAddr nPages less (memory.nodes cur).next memory = some (reserved, after)) := by
  cases fuel with
  | zero => cases done
  | succ fuel =>
      rw [reserveFrom, if_neg notNull] at done
      split at done
      · cases done
      · rename_i notTaken
        refine ⟨by simpa using notTaken, ?_⟩
        split at done
        · rename_i fits
          obtain ⟨cut, cutEq, same⟩ := Option.map_eq_some_iff.mp done
          obtain ⟨_, rfl⟩ := Prod.mk.inj same
          exact .inl ⟨fits, cutEq⟩
        · exact .inr ⟨fuel, Nat.lt_succ_self fuel, done⟩

theorem reserve_from_null (whereAddr : Addr) (nPages : BitVec 32) (fuel : Nat) (memory after : Memory) (reserved : Bool)
    (done : reserveFrom kmalloc whereAddr nPages fuel 0 memory = some (reserved, after)) : memory = after := by
  cases fuel with
  | zero => cases done
  | succ fuel =>
      rw [reserveFrom, if_pos rfl] at done
      exact (Prod.mk.inj (Option.some.inj done)).2

theorem dead_end_reserve (list : Ptr) (memory after : Memory) (size : BitVec 64) (node : Ptr) (whereAddr : Addr)
    (nPages : BitVec 32) (fuel : Nat) (reserved : Bool) (dead : DeadEnd memory list size node)
    (done : reserveFrom kmalloc whereAddr nPages fuel node memory = some (reserved, after)) :
    (memory.nodes node).free = true ∧ fitsReserve (memory.nodes node).toNode whereAddr nPages = true ∧
      reserveCut kmalloc node whereAddr nPages memory = some after := by
  induction fuel using Nat.strongRecOn with
  | ind fuel ih =>
      obtain ⟨free, ⟨fits, cut⟩ | ⟨less, lt, later⟩⟩ :=
        reserve_from_cases kmalloc whereAddr nPages fuel node memory after reserved dead.notNull done
      · exact ⟨free, fits, cut⟩
      · obtain again | ⟨notNull, _, _, taken⟩ := dead.loops free
        · exact ih less lt (again ▸ later)
        · rw [reserve_from_taken kmalloc whereAddr nPages less _ memory notNull taken] at later
          cases later

end

theorem keeps_cut_front (list newNode : Ptr) (memory cut : Memory) (newSize : BitVec 64) (change : LlNode → LlNode)
    (bisected : Bisected memory cut list newNode newSize) : KeepsLive list memory (cut.set list change) where
  nodes := by
    intro node live notHead
    have notNew : node ≠ newNode := fun same => bisected.unused (same ▸ live)
    rw [set_nodes, if_neg notHead, bisected.elsewhere node notHead notNew]
  live := by
    intro node live
    rw [set_live, bisected.live]
    exact List.mem_cons_of_mem newNode live

theorem keeps_set_front (list : Ptr) (memory : Memory) (change : LlNode → LlNode) :
    KeepsLive list memory (memory.set list change) where
  nodes := fun node _ notHead => by rw [set_nodes, if_neg notHead]
  live := fun _ live => live

theorem ready_empty_front (list newNode : Ptr) (memory cut : Memory) (ready : Ready list memory)
    (free : (memory.nodes list).free = true) (bisected : Bisected memory cut list newNode 0) :
    Ready list (cut.set list fun node => { node with free := false }) := by
  have apart : newNode ≠ list := fun same => bisected.unused (same ▸ ready.live)
  have keeps := keeps_cut_front list newNode memory cut 0 (fun node => { node with free := false }) bisected
  have made : (cut.set list fun node => { node with free := false }).nodes newNode =
      ⟨(Vmem.bisectNode (memory.nodes list).toNode 0).2, (memory.nodes list).next⟩ := by
    rw [set_nodes, if_neg apart, bisected.made apart]
  have head : (cut.set list fun node => { node with free := false }).nodes list =
      { memory.nodes list with size := 0, next := newNode, free := false } := by
    rw [set_nodes, if_pos rfl, bisected.shrunk apart]
  refine ⟨ready.notNull, keeps.live _ ready.live, head ▸ ready.start, fun isFree => by simp at isFree, fun _ => ?_⟩
  rw [head]
  refine ⟨apart, fun _ => ?_⟩
  rw [made]
  obtain ⟨_, last⟩ | dead := ready.whenFree free
  · exact .inl last
  · right
    by_cases again : (memory.nodes list).next = newNode
    · rw [again]
      refine ⟨bisected.notNull, apart, fun _ => ?_, fun _ => .inl ?_⟩
      · simp
      · rw [made, again]
    · have same : (cut.set list fun node => { node with free := false }).nodes (memory.nodes list).next =
          memory.nodes (memory.nodes list).next := by
        rw [set_nodes, if_neg dead.notHead, bisected.elsewhere _ dead.notHead again]
      refine dead_end_keeps list memory _ _ _ _ dead keeps same ?_
      rw [same]
      bv_omega

theorem ready_mark_front (list : Ptr) (memory : Memory) (ready : Ready list memory) (free : (memory.nodes list).free = true)
    (small : (memory.nodes list).size < 0x100000000) :
    Ready list (memory.set list fun node => { node with free := false }) := by
  have keeps := keeps_set_front list memory (fun node => { node with free := false })
  have head : (memory.set list fun node => { node with free := false }).nodes list =
      { memory.nodes list with free := false } := by
    rw [set_nodes, if_pos rfl]
  refine ⟨ready.notNull, ready.live, head ▸ ready.start, fun isFree => by simp at isFree, fun _ => ?_⟩
  rw [head]
  obtain ⟨whole, _⟩ | dead := ready.whenFree free
  · rw [whole] at small
    exact absurd small (by decide)
  · have same : (memory.set list fun node => { node with free := false }).nodes (memory.nodes list).next =
        memory.nodes (memory.nodes list).next := by
      rw [set_nodes, if_neg dead.notHead]
    refine ⟨dead.notHead, fun nextFree => .inr ?_⟩
    rw [same] at nextFree ⊢
    have smaller := dead.smaller nextFree
    obtain again | ⟨notNull, notHead, _, taken⟩ := dead.loops nextFree
    · rw [again, same]
      refine dead_end_keeps list memory _ _ _ _ dead keeps same ?_
      bv_omega
    · refine dead_end_taken list _ _ _ notNull notHead ?_
      rw [set_nodes, if_neg notHead]
      exact taken

theorem ready_reserve_front (list newNode : Ptr) (memory cut : Memory) (newSize : BitVec 64) (ready : Ready list memory)
    (free : (memory.nodes list).free = true) (bisected : Bisected memory cut list newNode newSize) :
    Ready list (cut.set newNode fun node => { node with free := false }) := by
  have apart : newNode ≠ list := fun same => bisected.unused (same ▸ ready.live)
  have head : (cut.set newNode fun node => { node with free := false }).nodes list =
      { memory.nodes list with size := newSize, next := newNode } := by
    rw [set_nodes, if_neg (Ne.symm apart), bisected.shrunk apart]
  refine ⟨ready.notNull, ?_, head ▸ ready.start, fun _ => .inr ?_, fun taken => ?_⟩
  · rw [set_live, bisected.live]
    exact List.mem_cons_of_mem newNode ready.live
  · rw [head]
    exact dead_end_taken list _ _ newNode bisected.notNull apart (by simp)
  · rw [head] at taken
    exact absurd (free.symm.trans taken) (by decide)

theorem ready_behind (list : Ptr) (memory after : Memory) (ready : Ready list memory)
    (free : (memory.nodes list).free = true) (live : list ∈ after.live) (same : after.nodes list = memory.nodes list)
    (dead : DeadEnd after list (memory.nodes list).size (memory.nodes list).next) : Ready list after where
  notNull := ready.notNull
  live := live
  start := same ▸ ready.start
  whenFree := fun _ => .inr (same ▸ dead)
  whenTaken := fun taken => by simp [same, free] at taken

theorem ready_reserve_behind (list newNode : Ptr) (memory cut : Memory) (newSize : BitVec 64) (ready : Ready list memory)
    (free : (memory.nodes list).free = true) (dead : DeadEnd memory list (memory.nodes list).size (memory.nodes list).next)
    (nextFree : (memory.nodes (memory.nodes list).next).free = true)
    (fits : newSize < (memory.nodes (memory.nodes list).next).size)
    (bisected : Bisected memory cut (memory.nodes list).next newNode newSize) :
    Ready list (cut.set newNode fun node => { node with free := false }) := by
  have apart : newNode ≠ list := fun same => bisected.unused (same ▸ ready.live)
  have live : newNode :: memory.live = (cut.set newNode fun node => { node with free := false }).live :=
    bisected.live.symm
  refine ready_behind list memory _ ready free (live ▸ List.mem_cons_of_mem newNode ready.live) ?_ ?_
  · rw [set_nodes, if_neg (Ne.symm apart), bisected.elsewhere list (Ne.symm dead.notHead) (Ne.symm apart)]
  · by_cases same : newNode = (memory.nodes list).next
    · exact dead_end_taken list _ _ _ dead.notNull dead.notHead (by simp [same])
    · have shrunk : (cut.set newNode fun node => { node with free := false }).nodes (memory.nodes list).next =
          { memory.nodes (memory.nodes list).next with size := newSize, next := newNode } := by
        rw [set_nodes, if_neg (Ne.symm same), bisected.shrunk same]
      refine ⟨dead.notNull, dead.notHead, fun _ => ?_, fun _ => .inr ?_⟩
      · rw [shrunk]
        have smaller := dead.smaller nextFree
        simp only
        bv_omega
      · rw [shrunk]
        exact ⟨bisected.notNull, apart, live ▸ List.mem_cons_self, by simp⟩

theorem ready_mark_behind (list : Ptr) (memory : Memory) (ready : Ready list memory) (free : (memory.nodes list).free = true)
    (dead : DeadEnd memory list (memory.nodes list).size (memory.nodes list).next) :
    Ready list (memory.set (memory.nodes list).next fun node => { node with free := false }) := by
  refine ready_behind list memory _ ready free ready.live ?_ ?_
  · rw [set_nodes, if_neg (Ne.symm dead.notHead)]
  · exact dead_end_taken list _ _ _ dead.notNull dead.notHead (by simp)

section
variable (kmalloc : Kmalloc)

theorem ready_allocate (list : Ptr) (nPages : BitVec 32) (fuel : Nat) (memory after : Memory) (result : Option Addr)
    (ready : Ready list memory) (done : allocateFrom kmalloc nPages fuel list memory = some (result, after)) :
    result = some hhStart ∧ (nPages = 0 → Ready list after) := by
  have count : nPages.setWidth 64 < (0x100000000 : BitVec 64) := by bv_omega
  obtain ⟨free, cases⟩ := allocate_from_cases kmalloc nPages fuel list memory after result ready.notNull done
  obtain ⟨exactly, found, rfl⟩ | ⟨_, newNode, cut, bisected, found, rfl⟩ | ⟨smaller, less, later⟩ := cases
  · exact ⟨found.trans (congrArg some ready.start),
      fun _ => ready_mark_front list memory ready free (exactly ▸ count)⟩
  · have apart : newNode ≠ list := fun same => bisected.unused (same ▸ ready.live)
    constructor
    · rw [found, bisected.shrunk apart]
      exact congrArg some ready.start
    · rintro rfl
      exact ready_empty_front list newNode memory cut ready free bisected
  · obtain ⟨whole, _⟩ | dead := ready.whenFree free
    · bv_omega
    · rw [dead_end_allocate kmalloc list memory _ _ nPages less dead smaller] at later
      cases later

theorem ready_reserve (list : Ptr) (whereAddr : Addr) (nPages : BitVec 32) (fuel : Nat) (memory after : Memory)
    (reserved : Bool) (ready : Ready list memory)
    (done : reserveFrom kmalloc whereAddr nPages fuel list memory = some (reserved, after)) : Ready list after := by
  have count : nPages.setWidth 64 < (0x100000000 : BitVec 64) := by bv_omega
  obtain ⟨free, ⟨fits, cutDone⟩ | ⟨less, _, later⟩⟩ :=
    reserve_from_cases kmalloc whereAddr nPages fuel list memory after reserved ready.notNull done
  · obtain ⟨_, newNode, cut, bisected, rfl⟩ | ⟨small, rfl⟩ :=
      reserve_cut_cases kmalloc whereAddr nPages list memory after fits cutDone
    · exact ready_reserve_front list newNode memory cut _ ready free bisected
    · exact ready_mark_front list memory ready free (by bv_omega)
  · obtain ⟨_, last⟩ | dead := ready.whenFree free
    · rw [last] at later
      exact reserve_from_null kmalloc whereAddr nPages less memory after reserved later ▸ ready
    · obtain ⟨nextFree, fits, cutDone⟩ := dead_end_reserve kmalloc list memory after _ _ whereAddr nPages less reserved dead later
      obtain ⟨larger, newNode, cut, bisected, rfl⟩ | ⟨_, rfl⟩ :=
        reserve_cut_cases kmalloc whereAddr nPages _ memory after fits cutDone
      · exact ready_reserve_behind list newNode memory cut _ ready free dead nextFree larger bisected
      · exact ready_mark_behind list memory ready free dead

end

-- The node given back is the new successor; where that one is free, the node behind
-- it is itself or a node that is still in use.
theorem ready_merged (list : Ptr) (memory after : Memory) (size : BitVec 64) (node : Ptr) (ready : Ready list memory)
    (dead : DeadEnd memory list size node)
    (head : after.nodes list = { memory.nodes list with size := size, free := true, next := node })
    (others : ∀ other, other ≠ list → after.nodes other = memory.nodes other)
    (live : after.live = memory.live.erase node) : Ready list after where
  notNull := ready.notNull
  live := live ▸ (List.mem_erase_of_ne (Ne.symm dead.notHead)).mpr ready.live
  start := head ▸ ready.start
  whenFree := by
    intro _
    right
    rw [head]
    have same := others node dead.notHead
    refine ⟨dead.notNull, dead.notHead, fun free => ?_, fun free => ?_⟩
    · rw [same] at free ⊢
      exact dead.smaller free
    · rw [same] at free ⊢
      refine (dead.loops free).imp id ?_
      rintro ⟨notNull, notHead, inUse, taken⟩
      have different : (memory.nodes node).next ≠ node := fun again => by simp [again, free] at taken
      refine ⟨notNull, notHead, live ▸ (List.mem_erase_of_ne different).mpr inUse, ?_⟩
      rw [others _ notHead]
      exact taken
  whenTaken := fun taken => by simp [head] at taken

theorem ready_free (list : Ptr) (fuel : Nat) (memory after : Memory) (ready : Ready list memory)
    (done : freeFrom hhStart fuel 0 list memory = some after) : Ready list after := by
  cases fuel with
  | zero => cases done
  | succ fuel =>
      rw [freeFrom, if_neg ready.notNull] at done
      split at done
      · cases done
      · rename_i notFree
        have taken : (memory.nodes list).free = false := by simpa using notFree
        obtain ⟨notHead, merge⟩ := ready.whenTaken taken
        rw [if_pos ready.start] at done
        obtain ⟨merged, mergedEq, rfl⟩ := Option.map_eq_some_iff.mp done
        have unlinked : mergePrev 0 list merged = merged.set list fun node => { node with free := true } :=
          if_neg (by simp)
        rw [unlinked]
        rw [mergeNext] at mergedEq
        split at mergedEq
        · cases mergedEq
        · rename_i notNull
          split at mergedEq
          · rename_i nextFree
            simp only [set_nodes, if_true] at mergedEq
            split at mergedEq
            · cases mergedEq
            · rename_i linked
              have dead := (merge nextFree).resolve_left linked
              obtain rfl := Option.some.inj mergedEq
              refine ready_merged list memory _ _ _ ready dead ?_ ?_ ?_
              · simp [kfree, dead.notHead]
              · intro other different
                simp [kfree, different]
              · simp [kfree]
          · rename_i nextTaken
            obtain rfl := Option.some.inj mergedEq
            refine ⟨ready.notNull, ready.live, ?_, fun _ => .inr ?_, fun stays => by simp at stays⟩
            · simpa using ready.start
            · simp only [set_nodes, if_true]
              refine dead_end_taken list _ _ _ notNull notHead ?_
              simpa [notHead] using nextTaken

-- initialize reserves nothing: it leaves the one free node it made.
structure Booted (start : Kern) : Prop where
  regStart : start.hhReg.regStart = hhStart
  regSize : start.hhReg.regSize = 0x800000000
  notNull : start.hhReg.list ≠ 0
  live : start.hhReg.list ∈ start.memory.live
  whole : start.memory.nodes start.hhReg.list = ⟨⟨hhStart, 0x800000000, true⟩, 0⟩
  results : start.results = []

theorem boot_booted (kmalloc : Kmalloc) (fuel : Nat) (memory : Memory) (start : Kern)
    (booted : boot kmalloc fuel memory = some start) : Booted start := by
  obtain ⟨⟨hhReg, after⟩, initEq, rfl⟩ := Option.map_eq_some_iff.mp booted
  simp only [vmemInitialize] at initEq
  split at initEq
  · cases initEq
  · rename_i notNull
    obtain ⟨⟨reserved, last⟩, reservedEq, same⟩ := Option.map_eq_some_iff.mp initEq
    obtain ⟨rfl, rfl⟩ := Prod.mk.inj same
    obtain ⟨_, ⟨fits, _⟩ | ⟨less, _, later⟩⟩ := reserve_from_cases kmalloc _ _ fuel _ _ _ reserved notNull reservedEq
    · rw [set_nodes, if_pos rfl] at fits
      exact absurd fits (by decide)
    · rw [set_nodes, if_pos rfl] at later
      obtain rfl := reserve_from_null kmalloc _ _ less _ _ reserved later
      exact ⟨rfl, rfl, notNull, by simp, by simp, rfl⟩

theorem booted_ready (start : Kern) (booted : Booted start) : Ready start.hhReg.list start.memory where
  notNull := booted.notNull
  live := booted.live
  start := by rw [booted.whole]
  whenFree := fun _ => .inl (by rw [booted.whole]; exact ⟨rfl, rfl⟩)
  whenTaken := fun taken => by rw [booted.whole] at taken; cases taken

-- Until the first page is allocated, the list is ready and only HH_START has been returned.
structure Unallocated (kern : Kern) : Prop where
  ready : Ready kern.hhReg.list kern.memory
  starts : ∀ allocation ∈ kern.results, allocation.start = hhStart

theorem unallocated_step (kmalloc : Kmalloc) (fuel : Nat) (kern next : Kern) (call : Call) (inv : Unallocated kern)
    (returned : FreesReturned kern call) (empty : call.Empty) (stepped : step kmalloc fuel kern call = some next) :
    Unallocated next := by
  cases call with
  | allocateKern nPages =>
      obtain ⟨⟨result, after⟩, done, rfl⟩ := Option.map_eq_some_iff.mp stepped
      obtain ⟨rfl, ready⟩ := ready_allocate kmalloc _ nPages fuel kern.memory after result inv.ready done
      exact ⟨ready empty, List.forall_mem_cons.mpr ⟨rfl, inv.starts⟩⟩
  | reserveKern whereAddr nPages =>
      obtain ⟨⟨reserved, after⟩, done, rfl⟩ := Option.map_eq_some_iff.mp stepped
      exact ⟨ready_reserve kmalloc _ whereAddr nPages fuel kern.memory after reserved inv.ready done, inv.starts⟩
  | freeKern whereAddr =>
      obtain ⟨after, done, rfl⟩ := Option.map_eq_some_iff.mp stepped
      obtain ⟨allocation, member, rfl⟩ := returned
      rw [freeRegion, inv.starts allocation member] at done
      exact ⟨ready_free _ fuel kern.memory after inv.ready done, inv.starts⟩

theorem record_grows (result : Option Addr) (nPages : BitVec 32) (results : List Allocation) :
    results ⊆ record result nPages results := by
  cases result with
  | none => exact fun _ member => member
  | some start => exact List.subset_cons_self _ _

theorem step_results_grow (kmalloc : Kmalloc) (fuel : Nat) (kern next : Kern) (call : Call)
    (stepped : step kmalloc fuel kern call = some next) : kern.results ⊆ next.results := by
  cases call with
  | allocateKern nPages =>
      obtain ⟨⟨result, after⟩, _, rfl⟩ := Option.map_eq_some_iff.mp stepped
      exact record_grows result nPages kern.results
  | reserveKern whereAddr nPages =>
      obtain ⟨_, _, rfl⟩ := Option.map_eq_some_iff.mp stepped
      exact fun _ member => member
  | freeKern whereAddr =>
      obtain ⟨_, _, rfl⟩ := Option.map_eq_some_iff.mp stepped
      exact fun _ member => member

theorem run_results_grow (kmalloc : Kmalloc) (fuel : Nat) (kern last : Kern) (calls : List Call)
    (finished : run (step kmalloc fuel) kern calls = some last) : kern.results ⊆ last.results :=
  run_invariant (step kmalloc fuel) (fun _ _ => True) (fun now => kern.results ⊆ now.results)
    (fun now call next grown _ stepped => List.Subset.trans grown (step_results_grow kmalloc fuel now next call stepped))
    kern last calls (List.Subset.refl _) (along_true (step kmalloc fuel) kern calls) finished

theorem boot_start_allocated (nPages : BitVec 32) (pages : nPages ≠ 0) :
    ¬ Disjoint (allocationPages ⟨hhStart, nPages⟩) bootPages := by
  have positive : 0 < nPages.toNat := by bv_omega
  rw [Set.not_disjoint_iff]
  exact ⟨hhStart, ⟨0, positive, by simp⟩, ⟨0, by decide, by simp⟩⟩

theorem kept_empty (kmalloc : Kmalloc) (fuel : Nat) (kern last : Kern) (calls : List Call) (inv : Unallocated kern)
    (returned : Along (step kmalloc fuel) FreesReturned kern calls)
    (finished : run (step kmalloc fuel) kern calls = some last) (kept : BootPagesKept last) : ∀ call ∈ calls, call.Empty := by
  induction calls generalizing kern with
  | nil => simp
  | cons call rest ih =>
      obtain ⟨next, stepped, later⟩ := Option.bind_eq_some_iff.mp finished
      have empty : call.Empty := by
        cases call with
        | allocateKern nPages =>
            refine Classical.byContradiction (fun pages => ?_)
            obtain ⟨⟨result, after⟩, done, rfl⟩ := Option.map_eq_some_iff.mp stepped
            obtain ⟨rfl, _⟩ := ready_allocate kmalloc _ nPages fuel kern.memory after result inv.ready done
            have recorded := run_results_grow kmalloc fuel _ last rest later List.mem_cons_self
            exact boot_start_allocated nPages pages (kept _ recorded)
        | reserveKern whereAddr nPages => trivial
        | freeKern whereAddr => trivial
      have nextInv := unallocated_step kmalloc fuel kern next call inv returned.1 empty stepped
      exact List.forall_mem_cons.mpr ⟨empty, ih next nextInv (returned.2 next stepped) later⟩

theorem empty_kept_step (kmalloc : Kmalloc) (fuel : Nat) (kern : Kern) (call : Call) (next : Kern) (kept : BootPagesKept kern)
    (empty : call.Empty) (stepped : step kmalloc fuel kern call = some next) : BootPagesKept next := by
  cases call with
  | allocateKern nPages =>
      obtain ⟨⟨result, after⟩, _, rfl⟩ := Option.map_eq_some_iff.mp stepped
      obtain rfl : nPages = 0 := empty
      cases result with
      | none => exact kept
      | some start =>
          refine List.forall_mem_cons.mpr ⟨?_, kept⟩
          rw [Set.disjoint_left]
          rintro page ⟨index, inside, _⟩
          cases inside
  | reserveKern whereAddr nPages =>
      obtain ⟨_, _, rfl⟩ := Option.map_eq_some_iff.mp stepped
      exact kept
  | freeKern whereAddr =>
      obtain ⟨_, _, rfl⟩ := Option.map_eq_some_iff.mp stepped
      exact kept

theorem empty_kept (kmalloc : Kmalloc) (fuel : Nat) (kern last : Kern) (calls : List Call) (kept : BootPagesKept kern)
    (empty : ∀ call ∈ calls, call.Empty) (finished : run (step kmalloc fuel) kern calls = some last) :
    BootPagesKept last :=
  run_invariant (step kmalloc fuel) (fun _ call => call.Empty) BootPagesKept (empty_kept_step kmalloc fuel)
    kern last calls kept (along_forall (step kmalloc fuel) Call.Empty kern calls empty) finished

theorem boot_pages_kept_iff (kmalloc : Kmalloc) (fuel : Nat) (memory : Memory) (start last : Kern) (calls : List Call)
    (booted : boot kmalloc fuel memory = some start) (returned : Along (step kmalloc fuel) FreesReturned start calls)
    (finished : run (step kmalloc fuel) start calls = some last) :
    BootPagesKept last ↔ ∀ nPages, .allocateKern nPages ∈ calls → nPages = 0 := by
  have started := boot_booted kmalloc fuel memory start booted
  have starts : ∀ allocation ∈ start.results, allocation.start = hhStart := by simp [started.results]
  constructor
  · intro kept nPages member
    exact kept_empty kmalloc fuel start last calls ⟨booted_ready start started, starts⟩ returned finished kept _ member
  · intro empty
    refine empty_kept kmalloc fuel start last calls (by simp [BootPagesKept, started.results]) ?_ finished
    intro call member
    cases call with
    | allocateKern nPages => exact empty nPages member
    | reserveKern whereAddr nPages => trivial
    | freeKern whereAddr => trivial

-- A kmalloc that answers with the next node of a row, while there is one.
def rowKmalloc : Kmalloc where
  answer memory :=
    let node := BitVec.ofNat 64 (32 * (memory.mallocs + 1))
    if node ∈ memory.live then 0 else node
  unused := by
    intro memory
    simp only
    split
    · simp
    · rename_i unused
      exact fun _ => unused

def emptyMemory : Memory := ⟨fun _ => ⟨⟨0, 0, false⟩, 0⟩, 0, []⟩

def topPageCalls : List Call := [.reserveKern 0xFFFFFFFFFFFFF000 1, .allocateKern 0]

theorem top_page_kept_iff : ∃ start last, boot rowKmalloc 2 emptyMemory = some start ∧
    run (step rowKmalloc 2) start topPageCalls = some last ∧
      (BootPagesKept last ↔ ∀ nPages, .allocateKern nPages ∈ topPageCalls → nPages = 0) := by
  have runs : ((boot rowKmalloc 2 emptyMemory).bind fun start => run (step rowKmalloc 2) start topPageCalls).isSome := by
    decide
  obtain ⟨last, finished⟩ := Option.isSome_iff_exists.mp runs
  obtain ⟨start, booted, finished⟩ := Option.bind_eq_some_iff.mp finished
  have returned : Along (step rowKmalloc 2) FreesReturned start topPageCalls :=
    ⟨trivial, fun _ _ => ⟨trivial, fun _ _ => trivial⟩⟩
  exact ⟨start, last, booted, finished, boot_pages_kept_iff rowKmalloc 2 emptyMemory start last _ booted returned finished⟩

theorem first_allocation_in_boot_pages : ∃ start last, boot rowKmalloc 2 emptyMemory = some start ∧
    run (step rowKmalloc 2) start [.allocateKern 1] = some last ∧ last.results = [⟨hhStart, 1⟩] ∧ ¬ BootPagesKept last := by
  have runs : ((boot rowKmalloc 2 emptyMemory).bind fun start =>
      (run (step rowKmalloc 2) start [.allocateKern 1]).map Kern.results) = some [⟨hhStart, 1⟩] := by decide
  obtain ⟨start, booted, finished⟩ := Option.bind_eq_some_iff.mp runs
  obtain ⟨last, finished, results⟩ := Option.map_eq_some_iff.mp finished
  refine ⟨start, last, booted, finished, results, fun kept => ?_⟩
  exact boot_start_allocated 1 (by decide) (kept ⟨hhStart, 1⟩ (by simp [results]))

end Kraftwerk.Vmem.Linked
