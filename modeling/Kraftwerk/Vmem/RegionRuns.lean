import Kraftwerk.Lib.Runs
import Kraftwerk.Vmem.Tiling

set_option autoImplicit false

namespace Kraftwerk.Vmem

open Runs

-- What every change that allocate_region and reserve_region make to a list keeps.
structure Cut (nodes after : List Node) : Prop where
  tiles : ∀ start, TilesFrom start nodes → TilesFrom start after
  total : totalPages after = totalPages nodes
  keeps : pagesOf false nodes ⊆ pagesOf false after

theorem cut_refl (nodes : List Node) : Cut nodes nodes where
  tiles := fun _ tiles => tiles
  total := rfl
  keeps := fun _ member => member

theorem cut_cons (node : Node) (rest after : List Node) (cut : Cut rest after) : Cut (node :: rest) (node :: after) where
  tiles := fun _ tiles => ⟨tiles.1, cut.tiles _ tiles.2⟩
  total := by rw [total_pages_cons, total_pages_cons, cut.total]
  keeps := by
    intro page member
    cases (mem_pages_cons false node rest page).mp member with
    | inl here => exact (mem_pages_cons false node after page).mpr (.inl here)
    | inr there => exact (mem_pages_cons false node after page).mpr (.inr (cut.keeps there))

theorem cut_mark (node : Node) (rest : List Node) : Cut (node :: rest) ({ node with free := false } :: rest) where
  tiles := fun _ tiles => tiles
  total := rfl
  keeps := by
    intro page member
    cases (mem_pages_cons false node rest page).mp member with
    | inl here => exact (mem_pages_cons false _ rest page).mpr (.inl ⟨rfl, here.2⟩)
    | inr there => exact (mem_pages_cons false _ rest page).mpr (.inr there)

theorem cut_bisect (node : Node) (rest : List Node) (newSize : BitVec 64) (frontFree backFree : Bool)
    (free : node.free = true) (fits : newSize ≤ node.size) :
    Cut (node :: rest) ({ (bisectNode node newSize).1 with free := frontFree } ::
      { (bisectNode node newSize).2 with free := backFree } :: rest) where
  tiles := by
    intro start tiles
    obtain ⟨rfl, later⟩ := tiles
    refine ⟨rfl, rfl, ?_⟩
    have whole : newSize <<< 12 + (node.size - newSize) <<< 12 = node.size <<< 12 := by
      rw [← BitVec.shiftLeft_add_distrib, BitVec.add_comm, BitVec.sub_add_cancel]
    simpa only [bisectNode, BitVec.add_assoc, whole] using later
  total := by
    have split : newSize.toNat + (node.size - newSize).toNat = node.size.toNat := by
      rw [BitVec.toNat_sub_of_le fits]
      have := BitVec.le_def.mp fits
      omega
    simp only [total_pages_cons, bisectNode]
    omega
  keeps := by
    intro page member
    cases (mem_pages_cons false node rest page).mp member with
    | inl here => simp [free] at here
    | inr there => exact (mem_pages_cons false _ _ page).mpr (.inr ((mem_pages_cons false _ rest page).mpr (.inr there)))

theorem cut_reserve_node (node : Node) (rest : List Node) (nPages : BitVec 32) (free : node.free = true) :
    Cut (node :: rest) (reserveNode node nPages ++ rest) := by
  unfold reserveNode
  split
  · rename_i larger
    exact cut_bisect node rest (nPages.setWidth 64) node.free false free (BitVec.le_of_lt larger)
  · exact cut_mark node rest

theorem reserve_list_cut (whereAddr : Addr) (nPages : BitVec 32) (nodes after : List Node) (reserved : Bool)
    (done : reserveList whereAddr nPages nodes = some (reserved, after)) : Cut nodes after := by
  induction nodes generalizing after with
  | nil =>
      obtain ⟨rfl, rfl⟩ := Prod.mk.inj (Option.some.inj done)
      exact cut_refl []
  | cons cur rest ih =>
      rw [reserveList] at done
      split at done
      · cases done
      · rename_i curFree
        have free : cur.free = true := by simpa using curFree
        split at done
        · rename_i fits
          obtain ⟨rfl, rfl⟩ := Prod.mk.inj (Option.some.inj done)
          rw [reserveCut, if_neg (fits_starts cur whereAddr nPages fits)]
          exact cut_reserve_node cur rest nPages free
        · obtain ⟨⟨found, tail⟩, tailEq, same⟩ := Option.map_eq_some_iff.mp done
          obtain ⟨rfl, rfl⟩ := Prod.mk.inj same
          exact cut_cons cur rest tail (ih tail tailEq)

structure Taken (nodes after : List Node) (start : Addr) (nPages : BitVec 32) : Prop where
  wasFree : pageRange start nPages.toNat ⊆ pagesOf true nodes
  isTaken : pageRange start nPages.toNat ⊆ pagesOf false after

theorem taken_cons (node : Node) (rest after : List Node) (start : Addr) (nPages : BitVec 32)
    (taken : Taken rest after start nPages) : Taken (node :: rest) (node :: after) start nPages where
  wasFree := fun page member => (mem_pages_cons true node rest page).mpr (.inr (taken.wasFree member))
  isTaken := fun page member => (mem_pages_cons false node after page).mpr (.inr (taken.isTaken member))

theorem taken_whole (node : Node) (rest : List Node) (nPages : BitVec 32) (free : node.free = true)
    (same : node.size = nPages.setWidth 64) :
    Taken (node :: rest) ({ node with free := false } :: rest) node.allocSt nPages := by
  have count : node.size.toNat = nPages.toNat := by
    rw [same, BitVec.toNat_setWidth_of_le (by decide)]
  constructor
  · rw [← count]
    exact fun page member => (mem_pages_cons true node rest page).mpr (.inl ⟨free, member⟩)
  · rw [← count]
    exact fun page member => (mem_pages_cons false _ rest page).mpr (.inl ⟨rfl, member⟩)

theorem taken_front (node nnode : Node) (rest : List Node) (nPages : BitVec 32) (free : node.free = true)
    (larger : nPages.setWidth 64 < node.size) :
    Taken (node :: rest) ({ (bisectNode node (nPages.setWidth 64)).1 with free := false } :: nnode :: rest)
      node.allocSt nPages := by
  have count : (nPages.setWidth 64).toNat = nPages.toNat := BitVec.toNat_setWidth_of_le (by decide)
  have below := BitVec.lt_def.mp larger
  constructor
  · intro page member
    obtain ⟨index, inside, rfl⟩ := member
    exact (mem_pages_cons true node rest _).mpr (.inl ⟨free, index, by omega, rfl⟩)
  · intro page member
    refine (mem_pages_cons false _ _ page).mpr (.inl ⟨rfl, ?_⟩)
    rw [nodePages, bisectNode, count]
    exact member

theorem allocate_list_cut (nPages : BitVec 32) (nodes after : List Node) (result : Option Addr)
    (done : allocateList nPages nodes = some (result, after)) :
    Cut nodes after ∧ ∀ start, result = some start → Taken nodes after start nPages := by
  induction nodes generalizing after with
  | nil =>
      obtain ⟨rfl, rfl⟩ := Prod.mk.inj (Option.some.inj done)
      exact ⟨cut_refl [], fun _ none => by cases none⟩
  | cons cur rest ih =>
      rw [allocateList] at done
      split at done
      · cases done
      · rename_i curFree
        have free : cur.free = true := by simpa using curFree
        split at done
        · rename_i same
          obtain ⟨rfl, rfl⟩ := Prod.mk.inj (Option.some.inj done)
          refine ⟨cut_mark cur rest, fun start found => ?_⟩
          obtain rfl := Option.some.inj found
          exact taken_whole cur rest nPages free same
        · split at done
          · rename_i larger
            obtain ⟨rfl, rfl⟩ := Prod.mk.inj (Option.some.inj done)
            refine ⟨cut_bisect cur rest (nPages.setWidth 64) false true free (BitVec.le_of_lt larger), fun start found => ?_⟩
            obtain rfl := Option.some.inj found
            exact taken_front cur _ rest nPages free larger
          · obtain ⟨⟨found, tail⟩, tailEq, same⟩ := Option.map_eq_some_iff.mp done
            obtain ⟨rfl, rfl⟩ := Prod.mk.inj same
            obtain ⟨cut, taken⟩ := ih tail tailEq
            exact ⟨cut_cons cur rest tail cut, fun start resultEq => taken_cons cur rest tail start nPages (taken start resultEq)⟩

structure Allocation where
  start : Addr
  nPages : BitVec 32
deriving DecidableEq

-- A region with the results of the allocate_region calls made on it so far.
structure State where
  region : Region
  results : List Allocation

inductive Call where
  | allocate (nPages : BitVec 32)
  | reserve (whereAddr : Addr) (nPages : BitVec 32)

def record (result : Option Addr) (nPages : BitVec 32) (results : List Allocation) : List Allocation :=
  match result with
  | some start => ⟨start, nPages⟩ :: results
  | none => results

def step (state : State) : Call → Option State
  | .allocate nPages =>
      (allocateRegion state.region nPages).map fun (result, region) => ⟨region, record result nPages state.results⟩
  | .reserve whereAddr nPages =>
      (reserveRegion state.region whereAddr nPages).map fun (_, region) => ⟨region, state.results⟩

def allocationPages (allocation : Allocation) : Set Addr := pageRange allocation.start allocation.nPages.toNat

structure TiledRun (initial : Region) (state : State) : Prop where
  tiles : Tiles state.region
  sameStart : state.region.regStart = initial.regStart
  sameSize : state.region.regSize = initial.regSize
  taken : ∀ allocation ∈ state.results, allocationPages allocation ⊆ pagesOf false state.region.list
  disjoint : state.results.Pairwise (fun a b => Disjoint (allocationPages a) (allocationPages b))

-- What one call does to the pages: no page that is not free becomes free, and a
-- range that is handed out was free.
def CallSound (state : State) (call : Call) : Prop :=
  ∀ next, step state call = some next → (∀ page ∈ pagesOf false state.region.list,
      page ∈ pagesOf false next.region.list ∧ page ∉ pagesOf true next.region.list) ∧
    ∀ allocation, next.results = allocation :: state.results →
      allocationPages allocation ⊆ pagesOf true state.region.list

theorem tiles_disjoint (reg : Region) (tiles : Tiles reg) : Disjoint (pagesOf true reg.list) (pagesOf false reg.list) :=
  free_taken_disjoint reg.regStart reg.list tiles.chained (tiles.total ▸ tiles.small)

theorem tiles_cut (reg : Region) (after : List Node) (tiles : Tiles reg) (cut : Cut reg.list after) :
    Tiles { reg with list := after } where
  small := tiles.small
  chained := cut.tiles reg.regStart tiles.chained
  total := cut.total.trans tiles.total

theorem tiled_run_cut (initial : Region) (state : State) (after : List Node) (run : TiledRun initial state)
    (cut : Cut state.region.list after) : TiledRun initial ⟨{ state.region with list := after }, state.results⟩ where
  tiles := tiles_cut state.region after run.tiles cut
  sameStart := run.sameStart
  sameSize := run.sameSize
  taken := fun allocation member => (run.taken allocation member).trans cut.keeps
  disjoint := run.disjoint

theorem tiled_run_record (initial : Region) (state : State) (after : List Node) (start : Addr) (nPages : BitVec 32)
    (run : TiledRun initial state) (cut : Cut state.region.list after) (taken : Taken state.region.list after start nPages) :
    TiledRun initial ⟨{ state.region with list := after }, ⟨start, nPages⟩ :: state.results⟩ where
  tiles := tiles_cut state.region after run.tiles cut
  sameStart := run.sameStart
  sameSize := run.sameSize
  taken := by
    simp only [List.forall_mem_cons]
    exact ⟨taken.isTaken, fun allocation member => (run.taken allocation member).trans cut.keeps⟩
  disjoint := by
    refine List.pairwise_cons.mpr ⟨fun allocation member => ?_, run.disjoint⟩
    exact (tiles_disjoint state.region run.tiles).mono taken.wasFree (run.taken allocation member)

theorem step_cases (state next : State) (call : Call) (stepped : step state call = some next) :
    ∃ after, Cut state.region.list after ∧ next.region = { state.region with list := after } ∧
      (next.results = state.results ∨ ∃ start nPages, next.results = ⟨start, nPages⟩ :: state.results ∧
        Taken state.region.list after start nPages) := by
  cases call with
  | allocate nPages =>
      obtain ⟨⟨result, region⟩, done, rfl⟩ := Option.map_eq_some_iff.mp stepped
      obtain ⟨⟨found, after⟩, listDone, same⟩ := Option.map_eq_some_iff.mp done
      obtain ⟨rfl, rfl⟩ := Prod.mk.inj same
      obtain ⟨cut, taken⟩ := allocate_list_cut nPages state.region.list after found listDone
      cases found with
      | none => exact ⟨after, cut, rfl, .inl rfl⟩
      | some start => exact ⟨after, cut, rfl, .inr ⟨start, nPages, rfl, taken start rfl⟩⟩
  | reserve whereAddr nPages =>
      obtain ⟨⟨reserved, region⟩, done, rfl⟩ := Option.map_eq_some_iff.mp stepped
      obtain ⟨⟨found, after⟩, listDone, same⟩ := Option.map_eq_some_iff.mp done
      obtain ⟨rfl, rfl⟩ := Prod.mk.inj same
      exact ⟨after, reserve_list_cut whereAddr nPages state.region.list after found listDone, rfl, .inl rfl⟩

theorem tiled_run_step (initial : Region) (state : State) (call : Call) (next : State) (run : TiledRun initial state)
    (stepped : step state call = some next) : TiledRun initial next := by
  obtain ⟨region, results⟩ := next
  obtain ⟨after, cut, rfl, rfl | ⟨start, nPages, rfl, taken⟩⟩ := step_cases state ⟨region, results⟩ call stepped
  · exact tiled_run_cut initial state after run cut
  · exact tiled_run_record initial state after start nPages run cut taken

theorem call_sound (initial : Region) (state : State) (call : Call) (run : TiledRun initial state) : CallSound state call := by
  intro next stepped
  have nextRun := tiled_run_step initial state call next run stepped
  obtain ⟨after, cut, regionEq, results⟩ := step_cases state next call stepped
  have apart := tiles_disjoint next.region nextRun.tiles
  rw [regionEq] at apart ⊢
  refine ⟨fun page member => ⟨cut.keeps member, fun becomesFree => ?_⟩, fun allocation recorded => ?_⟩
  · exact Set.disjoint_left.mp apart becomesFree (cut.keeps member)
  · obtain same | ⟨start, nPages, new, taken⟩ := results
    · rw [same] at recorded
      simp at recorded
    · rw [new] at recorded
      obtain ⟨rfl, _⟩ := List.cons.inj recorded
      exact taken.wasFree

theorem tiled_run_start (initial : Region) (tiles : Tiles initial) : TiledRun initial ⟨initial, []⟩ where
  tiles := tiles
  sameStart := rfl
  sameSize := rfl
  taken := by simp
  disjoint := .nil

theorem tiled_run_finished (initial : Region) (tiles : Tiles initial) (calls : List Call) (last : State)
    (finished : run step ⟨initial, []⟩ calls = some last) : TiledRun initial last :=
  run_invariant step (fun _ _ => True) (TiledRun initial) (fun state call next inv _ => tiled_run_step initial state call next inv)
    ⟨initial, []⟩ last calls (tiled_run_start initial tiles) (along_true step ⟨initial, []⟩ calls) finished

theorem region_runs_sound (initial : Region) (tiles : Tiles initial) (calls : List Call) :
    Along step CallSound ⟨initial, []⟩ calls ∧
      ∀ last, run step ⟨initial, []⟩ calls = some last →
        Tiles last.region ∧ last.region.regStart = initial.regStart ∧ last.region.regSize = initial.regSize ∧
          last.results.Pairwise (fun a b => Disjoint (allocationPages a) (allocationPages b)) := by
  refine ⟨?_, fun last finished => ?_⟩
  · exact along_of_invariant step (fun _ _ => True) CallSound (TiledRun initial)
      (fun state call next inv _ => tiled_run_step initial state call next inv)
      (fun state call inv _ => call_sound initial state call inv) ⟨initial, []⟩ calls (tiled_run_start initial tiles)
      (along_true step ⟨initial, []⟩ calls)
  · have inv := tiled_run_finished initial tiles calls last finished
    exact ⟨inv.tiles, inv.sameStart, inv.sameSize, inv.disjoint⟩

-- The kernel region as virtual_memory::initialize sets it up before it reserves.
def kernelRegion : Region := ⟨0xFFFF800000000000, 0x800000000, [⟨0xFFFF800000000000, 0x800000000, true⟩]⟩

theorem kernel_region_tiles : Tiles kernelRegion where
  small := by decide
  chained := ⟨rfl, trivial⟩
  total := by decide

theorem kernel_region_runs_sound :
    Along step CallSound ⟨kernelRegion, []⟩ [.reserve 0xFFFF800000000000 512, .allocate 3] ∧
      ∀ last, run step ⟨kernelRegion, []⟩ [.reserve 0xFFFF800000000000 512, .allocate 3] = some last →
        Tiles last.region ∧ last.region.regStart = kernelRegion.regStart ∧ last.region.regSize = kernelRegion.regSize ∧
          last.results.Pairwise (fun a b => Disjoint (allocationPages a) (allocationPages b)) :=
  region_runs_sound kernelRegion kernel_region_tiles _

end Kraftwerk.Vmem
