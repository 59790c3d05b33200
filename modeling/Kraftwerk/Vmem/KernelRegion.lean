import Kraftwerk.Vmem.LinkedRefinement

set_option autoImplicit false

-- The kernel's region from initialize to the first free_kern: how many of the calls on it return.
namespace Kraftwerk.Vmem.Linked

open Runs

-- The first node alone decides: the whole region, a free piece in front of a taken node, or a taken node.
inductive Front where
  | whole
  | piece (size : BitVec 64)
  | taken
deriving DecidableEq, Repr

def Front.serve : Front → Vmem.Call → Option Front
  | .whole, .allocate _ => some .taken
  | .whole, .reserve whereAddr nPages =>
      some (if fitsReserve ⟨hhStart, 0x800000000, true⟩ whereAddr nPages then .piece (nPages.setWidth 64) else .whole)
  | .piece size, .allocate nPages => if nPages.setWidth 64 ≤ size then some .taken else none
  | .piece size, .reserve whereAddr nPages =>
      if fitsReserve ⟨hhStart, size, true⟩ whereAddr nPages then
        some (if nPages.setWidth 64 < size then .piece (nPages.setWidth 64) else .taken)
      else none
  | .taken, _ => none

inductive FrontOf : Front → List Node → Prop where
  | whole : FrontOf .whole [⟨hhStart, 0x800000000, true⟩]
  | piece (size : BitVec 64) (behind : Node) (rest : List Node) (taken : behind.free = false) :
      FrontOf (.piece size) (⟨hhStart, size, true⟩ :: behind :: rest)
  | taken (first : Node) (rest : List Node) (taken : first.free = false) : FrontOf .taken (first :: rest)

theorem taken_allocates (nPages : BitVec 32) (first : Node) (rest : List Node) (taken : first.free = false) :
    allocateList nPages (first :: rest) = none := by
  rw [allocateList, taken, if_pos Bool.not_false]

theorem taken_reserves (whereAddr : Addr) (nPages : BitVec 32) (first : Node) (rest : List Node) (taken : first.free = false) :
    reserveList whereAddr nPages (first :: rest) = none := by
  rw [reserveList, taken, if_pos Bool.not_false]

theorem small_request (nPages : BitVec 32) : nPages.setWidth 64 < (0x800000000 : BitVec 64) := by
  rw [BitVec.lt_def, BitVec.toNat_setWidth_of_le (by decide)]
  exact Nat.lt_trans nPages.isLt (by decide)

theorem free_passes (size : BitVec 64) : ¬ (!(⟨hhStart, size, true⟩ : Node).free) = true := Bool.false_ne_true

-- A free first node that is large enough is allocated from, and is not free behind it.
theorem first_allocated (nPages : BitVec 32) (size : BitVec 64) (rest : List Node) (fits : nPages.setWidth 64 ≤ size) :
    ∃ first later, allocateList nPages (⟨hhStart, size, true⟩ :: rest) = some (some hhStart, first :: later) ∧ first.free = false := by
  rw [allocateList, if_neg (free_passes size)]
  dsimp only
  by_cases same : size = nPages.setWidth 64
  · rw [if_pos same]
    exact ⟨_, _, rfl, rfl⟩
  · rw [if_neg same, if_pos (by bv_omega)]
    exact ⟨_, _, rfl, rfl⟩

theorem first_too_small (nPages : BitVec 32) (size : BitVec 64) (behind : Node) (rest : List Node) (taken : behind.free = false)
    (larger : ¬ nPages.setWidth 64 ≤ size) : allocateList nPages (⟨hhStart, size, true⟩ :: behind :: rest) = none := by
  rw [allocateList, if_neg (free_passes size)]
  dsimp only
  rw [if_neg (by bv_omega), if_neg (by bv_omega), taken_allocates nPages behind rest taken, Option.map_none]

-- The piece that is cut off stays free, and what it is cut off from is taken.
theorem first_reserved (whereAddr : Addr) (nPages : BitVec 32) (size : BitVec 64) (rest : List Node)
    (fits : fitsReserve ⟨hhStart, size, true⟩ whereAddr nPages = true) :
    ∃ later, reserveList whereAddr nPages (⟨hhStart, size, true⟩ :: rest) = some (true, later) ∧
      FrontOf (if nPages.setWidth 64 < size then .piece (nPages.setWidth 64) else .taken) later := by
  rw [reserveList, if_neg (free_passes size), if_pos fits, Vmem.reserveCut, if_neg (fits_starts _ whereAddr nPages fits), Vmem.reserveNode]
  dsimp only
  by_cases less : nPages.setWidth 64 < size
  · rw [if_pos less, if_pos less]
    exact ⟨_, rfl, .piece _ _ rest rfl⟩
  · rw [if_neg less, if_neg less]
    exact ⟨_, rfl, .taken _ rest rfl⟩

theorem first_not_reserved (whereAddr : Addr) (nPages : BitVec 32) (size : BitVec 64) (rest : List Node)
    (outside : ¬ fitsReserve ⟨hhStart, size, true⟩ whereAddr nPages = true) :
    reserveList whereAddr nPages (⟨hhStart, size, true⟩ :: rest) =
      (reserveList whereAddr nPages rest).map fun (reserved, after) => (reserved, ⟨hhStart, size, true⟩ :: after) := by
  rw [reserveList, if_neg (free_passes size), if_neg outside]

def servedResults (call : Vmem.Call) (results : List Allocation) : List Allocation :=
  match call with
  | .allocate nPages => ⟨hhStart, nPages⟩ :: results
  | .reserve _ _ => results

-- A call that returns on the list returns by its first node, and is answered as that node answers.
structure ServedBy (front : Option Front) (results : List Allocation) (state : Option State) : Prop where
  hangs : front = none → state = none
  returns : ∀ later, front = some later → ∃ next, state = some next ∧ FrontOf later next.region.list ∧ next.results = results

theorem hangs_by (results : List Allocation) : ServedBy none results none where
  hangs := fun _ => rfl
  returns := fun _ none => by cases none

theorem returns_by (later : Front) (results : List Allocation) (next : State) (front : FrontOf later next.region.list)
    (same : next.results = results) : ServedBy (some later) results (some next) where
  hangs := fun none => by cases none
  returns := fun other known => Option.some.inj known ▸ ⟨next, rfl, front, same⟩

theorem allocated_by (region : Region) (results : List Allocation) (nPages : BitVec 32) (first : Node) (later : List Node)
    (done : allocateList nPages region.list = some (some hhStart, first :: later)) (taken : first.free = false) :
    ServedBy (some .taken) (⟨hhStart, nPages⟩ :: results) (Vmem.step ⟨region, results⟩ (.allocate nPages)) := by
  rw [Vmem.step, Vmem.allocateRegion, done, Option.map_some, Option.map_some]
  exact returns_by .taken _ _ (.taken first later taken) rfl

theorem reserved_by (region : Region) (results : List Allocation) (whereAddr : Addr) (nPages : BitVec 32) (reserved : Bool)
    (front : Front) (later : List Node) (done : reserveList whereAddr nPages region.list = some (reserved, later))
    (of : FrontOf front later) :
    ServedBy (some front) results (Vmem.step ⟨region, results⟩ (.reserve whereAddr nPages)) := by
  rw [Vmem.step, Vmem.reserveRegion, done, Option.map_some, Option.map_some]
  exact returns_by front _ _ of rfl

theorem allocate_hangs (region : Region) (results : List Allocation) (nPages : BitVec 32)
    (hangs : allocateList nPages region.list = none) : Vmem.step ⟨region, results⟩ (.allocate nPages) = none := by
  rw [Vmem.step, Vmem.allocateRegion, hangs, Option.map_none, Option.map_none]

theorem reserve_hangs (region : Region) (results : List Allocation) (whereAddr : Addr) (nPages : BitVec 32)
    (hangs : reserveList whereAddr nPages region.list = none) : Vmem.step ⟨region, results⟩ (.reserve whereAddr nPages) = none := by
  rw [Vmem.step, Vmem.reserveRegion, hangs, Option.map_none, Option.map_none]

theorem front_step (front : Front) (state : State) (call : Vmem.Call) (of : FrontOf front state.region.list) :
    ServedBy (front.serve call) (servedResults call state.results) (Vmem.step state call) := by
  obtain ⟨region, results⟩ := state
  obtain ⟨regStart, regSize, list⟩ := region
  cases of with
  | whole =>
      cases call with
      | allocate nPages =>
          obtain ⟨first, later, done, taken⟩ := first_allocated nPages 0x800000000 [] (BitVec.le_of_lt (small_request nPages))
          exact allocated_by _ results nPages first later done taken
      | reserve whereAddr nPages =>
          rw [Front.serve]
          by_cases fits : fitsReserve ⟨hhStart, 0x800000000, true⟩ whereAddr nPages = true
          · obtain ⟨later, done, of⟩ := first_reserved whereAddr nPages 0x800000000 [] fits
            rw [if_pos (small_request nPages)] at of
            rw [if_pos fits]
            exact reserved_by _ results whereAddr nPages true _ later done of
          · rw [if_neg fits]
            exact reserved_by _ results whereAddr nPages false .whole _ (first_not_reserved whereAddr nPages _ [] fits) .whole
  | piece size behind rest taken =>
      cases call with
      | allocate nPages =>
          rw [Front.serve]
          by_cases small : nPages.setWidth 64 ≤ size
          · obtain ⟨first, later, done, firstTaken⟩ := first_allocated nPages size (behind :: rest) small
            rw [if_pos small]
            exact allocated_by _ results nPages first later done firstTaken
          · rw [if_neg small, allocate_hangs _ results nPages (first_too_small nPages size behind rest taken small)]
            exact hangs_by _
      | reserve whereAddr nPages =>
          rw [Front.serve]
          by_cases fits : fitsReserve ⟨hhStart, size, true⟩ whereAddr nPages = true
          · obtain ⟨later, done, of⟩ := first_reserved whereAddr nPages size (behind :: rest) fits
            rw [if_pos fits]
            exact reserved_by _ results whereAddr nPages true _ later done of
          · have stuck := first_not_reserved whereAddr nPages size (behind :: rest) fits
            rw [taken_reserves whereAddr nPages behind rest taken, Option.map_none] at stuck
            rw [if_neg fits, reserve_hangs _ results whereAddr nPages stuck]
            exact hangs_by _
  | taken first rest taken =>
      cases call with
      | allocate nPages =>
          rw [Front.serve, allocate_hangs _ results nPages (taken_allocates nPages first rest taken)]
          exact hangs_by _
      | reserve whereAddr nPages =>
          rw [Front.serve, reserve_hangs _ results whereAddr nPages (taken_reserves whereAddr nPages first rest taken)]
          exact hangs_by _

def runResults (calls : List Vmem.Call) (results : List Allocation) : List Allocation :=
  calls.foldl (fun results call => servedResults call results) results

theorem front_run (front : Front) (state : State) (calls : List Vmem.Call) (of : FrontOf front state.region.list) :
    ServedBy (run Front.serve front calls) (runResults calls state.results) (run Vmem.step state calls) := by
  induction calls generalizing front state with
  | nil => exact returns_by front _ state of rfl
  | cons call rest ih =>
      obtain ⟨hangs, returns⟩ := front_step front state call of
      cases served : front.serve call with
      | none =>
          rw [run, run, served, hangs served, Option.bind_none, Option.bind_none]
          exact hangs_by _
      | some later =>
          obtain ⟨next, stepped, nextOf, same⟩ := returns later served
          rw [run, run, served, stepped, Option.bind_some, Option.bind_some, runResults, List.foldl_cons, ← same]
          exact ih later next nextOf

theorem taken_last (calls : List Vmem.Call) (last : Front) (finished : run Front.serve .taken calls = some last) : calls = [] := by
  cases calls with
  | nil => rfl
  | cons call rest => cases finished

theorem allocate_takes (front later : Front) (nPages : BitVec 32) (served : front.serve (.allocate nPages) = some later) :
    later = .taken := by
  cases front with
  | whole => exact (Option.some.inj served).symm
  | piece size =>
      rw [Front.serve] at served
      split at served
      · exact (Option.some.inj served).symm
      · cases served
  | taken => cases served

-- Nothing comes back behind an allocation.
theorem served_once (front last : Front) (before after : List Vmem.Call) (nPages : BitVec 32) (results : List Allocation)
    (finished : run Front.serve front (before ++ .allocate nPages :: after) = some last) :
    after = [] ∧ runResults (before ++ .allocate nPages :: after) results = ⟨hhStart, nPages⟩ :: results := by
  induction before generalizing front with
  | nil =>
      obtain ⟨next, served, later⟩ := Option.bind_eq_some_iff.mp finished
      obtain rfl := allocate_takes front next nPages served
      obtain rfl := taken_last after last later
      exact ⟨rfl, rfl⟩
  | cons call rest ih =>
      obtain ⟨next, served, later⟩ := Option.bind_eq_some_iff.mp finished
      cases call with
      | allocate pages =>
          obtain rfl := allocate_takes front next pages served
          exact absurd (taken_last _ last later) (List.append_ne_nil_of_right_ne_nil rest (List.cons_ne_nil _ _))
      | reserve whereAddr pages => exact ih next later

theorem none_allocated (calls : List Vmem.Call) (results : List Allocation) (none : ∀ nPages, .allocate nPages ∉ calls) :
    runResults calls results = results := by
  induction calls generalizing results with
  | nil => rfl
  | cons call rest ih =>
      cases call with
      | allocate nPages => exact absurd List.mem_cons_self (none nPages)
      | reserve whereAddr nPages => exact ih results fun nPages member => none nPages (List.mem_cons_of_mem _ member)

-- After initialize, and before any free_kern, the first allocation that returns is the last call that does. It is answered with the
-- start of the region, whose first 512 pages initialize has meant to reserve.
theorem kernel_region_serves_once (kmalloc : Kmalloc) (bootFuel : Nat) (memory : Memory) (start : Kern) (fuel : Nat)
    (calls : List Vmem.Call) (booted : boot kmalloc bootFuel memory = some start) (enough : calls.length + 1 < fuel)
    (answers : Along (step kmalloc fuel) (Answers kmalloc) start (calls.map kernCall)) :
    (run (step kmalloc fuel) start (calls.map kernCall) = none ↔ run Front.serve .whole calls = none) ∧
      ∀ last, run (step kmalloc fuel) start (calls.map kernCall) = some last →
        (∀ before nPages after, calls = before ++ .allocate nPages :: after → after = [] ∧ last.results = [⟨hhStart, nPages⟩]) ∧
          ((∀ nPages, .allocate nPages ∉ calls) → last.results = []) := by
  have rep := booted_rep start (boot_booted kmalloc bootFuel memory start booted)
  obtain ⟨hangs, returns⟩ := run_refines kmalloc fuel start ⟨kernelRegion, []⟩ calls rep (by rw [Nat.add_comm]; exact enough) answers
  obtain ⟨frontHangs, frontReturns⟩ := front_run .whole ⟨kernelRegion, []⟩ calls .whole
  cases front : run Front.serve .whole calls with
  | none =>
      have hung := hangs (frontHangs front)
      refine ⟨iff_of_true hung rfl, fun last finished => ?_⟩
      cases hung.symm.trans finished
  | some later =>
      obtain ⟨next, stepped, _, results⟩ := frontReturns later front
      obtain ⟨last, finished, lastRep⟩ := returns next stepped
      refine ⟨iff_of_false (by rw [finished]; exact Option.some_ne_none _) (Option.some_ne_none _), fun other otherFinished => ?_⟩
      obtain rfl := Option.some.inj (finished.symm.trans otherFinished)
      rw [lastRep.results, results]
      refine ⟨fun before nPages after parts => ?_, none_allocated calls []⟩
      rw [parts] at front ⊢
      exact served_once .whole later before after nPages [] front

theorem row_boots : (boot rowKmalloc 2 emptyMemory).isSome := by decide

def bootedRow : Kern := (boot rowKmalloc 2 emptyMemory).get row_boots

theorem booted_row : boot rowKmalloc 2 emptyMemory = some bootedRow := (Option.some_get row_boots).symm

def topPageThenOne : List Vmem.Call := [.reserve 0xFFFFFFFFFFFFF000 1, .allocate 1]

theorem top_page_served_once :
    (run (step rowKmalloc 4) bootedRow (topPageThenOne.map kernCall) = none ↔ run Front.serve .whole topPageThenOne = none) ∧
      ∀ last, run (step rowKmalloc 4) bootedRow (topPageThenOne.map kernCall) = some last →
        (∀ before nPages after, topPageThenOne = before ++ .allocate nPages :: after →
          after = [] ∧ last.results = [⟨hhStart, nPages⟩]) ∧
          ((∀ nPages, .allocate nPages ∉ topPageThenOne) → last.results = []) :=
  kernel_region_serves_once rowKmalloc 2 emptyMemory bootedRow 4 topPageThenOne booted_row (by decide) (by decide)

end Kraftwerk.Vmem.Linked
