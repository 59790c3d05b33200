import Kraftwerk.Lib.Chain
import Kraftwerk.Vmem.LinkedRefinement
import Kraftwerk.Vmem.Tiling
import Mathlib.Data.List.Count

set_option autoImplicit false

-- free_region against what it is for: the pages of one node become free, and the
-- node is joined with the free nodes beside it.
namespace Kraftwerk.Vmem

def joinNodes (node next : Node) : Node := { node with size := node.size + next.size }

def joinFree (node : Node) : List Node → List Node
  | [] => [node]
  | next :: rest => if next.free then joinNodes node next :: rest else node :: next :: rest

-- The list once node, which stands between front and back, is free.
def mergedAt (node : Node) (back : List Node) : List Node → List Node
  | [] => joinFree { node with free := true } back
  | [prev] =>
      if prev.free then joinFree prev (joinFree { node with free := true } back)
      else prev :: joinFree { node with free := true } back
  | prev :: second :: front => prev :: mergedAt node back (second :: front)

-- The lists that cover the same pages in the same order.
structure SamePages (start : Addr) (nodes others : List Node) : Prop where
  tiles : TilesFrom start others
  total : totalPages others = totalPages nodes
  pages : ∀ free, pagesOf free others = pagesOf free nodes

theorem same_pages_refl (start : Addr) (nodes : List Node) (tiles : TilesFrom start nodes) : SamePages start nodes nodes :=
  ⟨tiles, rfl, fun _ => rfl⟩

theorem same_pages_cons (start : Addr) (node : Node) (nodes others : List Node) (tiles : TilesFrom start (node :: nodes))
    (same : SamePages (start + node.size <<< 12) nodes others) : SamePages start (node :: nodes) (node :: others) where
  tiles := ⟨tiles.1, same.tiles⟩
  total := by rw [total_pages_cons, total_pages_cons, same.total]
  pages := by
    intro free
    ext page
    rw [mem_pages_cons, mem_pages_cons, same.pages free]

theorem same_pages_trans (start : Addr) (nodes others last : List Node) (first : SamePages start nodes others)
    (second : SamePages start others last) : SamePages start nodes last where
  tiles := second.tiles
  total := second.total.trans first.total
  pages := fun free => (second.pages free).trans (first.pages free)

theorem join_free_same (start : Addr) (node : Node) (back : List Node) (tiles : TilesFrom start (node :: back))
    (small : totalPages (node :: back) ≤ 2 ^ 52) (free : node.free = true) :
    SamePages start (node :: back) (joinFree node back) := by
  cases back with
  | nil => exact same_pages_refl start [node] tiles
  | cons next rest =>
      rw [joinFree]
      cases nextFree : next.free with
      | false => exact same_pages_refl start _ tiles
      | true =>
          obtain ⟨rfl, nextStart, later⟩ := tiles
          rw [total_pages_cons, total_pages_cons] at small
          have sum : (node.size + next.size).toNat = node.size.toNat + next.size.toNat := by
            rw [BitVec.toNat_add]
            omega
          have joined : nodePages (joinNodes node next) = nodePages node ∪ nodePages next := by
            rw [nodePages, nodePages, nodePages, joinNodes, sum, page_range_add, ← shift_page_count, nextStart]
          refine ⟨⟨rfl, ?_⟩, ?_, fun kind => ?_⟩
          · rw [joinNodes, BitVec.shiftLeft_add_distrib, ← BitVec.add_assoc]
            exact later
          · rw [if_pos rfl, total_pages_cons, total_pages_cons, total_pages_cons, joinNodes, sum, Nat.add_assoc]
          · ext page
            rw [if_pos rfl, mem_pages_cons, mem_pages_cons, mem_pages_cons, joined, nextFree, joinNodes, free, Set.mem_union,
              and_or_left, or_assoc]

theorem tiles_mark (start : Addr) (front back : List Node) (node : Node)
    (tiles : TilesFrom start (front ++ node :: back)) : TilesFrom start (front ++ { node with free := true } :: back) := by
  induction front generalizing start with
  | nil => exact tiles
  | cons prev front ih => exact ⟨tiles.1, ih _ tiles.2⟩

theorem total_mark (front back : List Node) (node : Node) :
    totalPages (front ++ { node with free := true } :: back) = totalPages (front ++ node :: back) := by
  induction front with
  | nil => rfl
  | cons prev front ih => rw [List.cons_append, List.cons_append, total_pages_cons, total_pages_cons, ih]

theorem pages_append (free : Bool) (front back : List Node) :
    pagesOf free (front ++ back) = pagesOf free front ∪ pagesOf free back := by
  induction front with
  | nil => rw [List.nil_append, pages_nil, Set.empty_union]
  | cons node front ih =>
      ext page
      rw [List.cons_append, mem_pages_cons, ih, Set.mem_union, Set.mem_union, mem_pages_cons, or_assoc]

-- Joining what is free with what is free moves no page.
theorem merged_at_same (start : Addr) (node : Node) (back front : List Node)
    (tiles : TilesFrom start (front ++ node :: back)) (small : totalPages (front ++ node :: back) ≤ 2 ^ 52) :
    SamePages start (front ++ { node with free := true } :: back) (mergedAt node back front) := by
  induction front generalizing start with
  | nil => exact join_free_same start { node with free := true } back tiles small rfl
  | cons prev front ih =>
      have marked := tiles_mark start (prev :: front) back node tiles
      rw [List.cons_append, total_pages_cons] at small
      cases front with
      | cons second front => exact same_pages_cons start prev _ _ marked (ih _ tiles.2 (by omega))
      | nil =>
          have behind := join_free_same _ { node with free := true } back marked.2 (by
            rw [List.nil_append, total_pages_cons] at small
            rw [total_pages_cons]
            exact (Nat.le_add_left _ _).trans small) rfl
          have kept := same_pages_cons start prev _ _ marked behind
          rw [mergedAt]
          cases prevFree : prev.free with
          | false => exact kept
          | true =>
              refine same_pages_trans start _ _ _ kept (join_free_same start prev _ kept.tiles ?_ prevFree)
              rw [kept.total, total_pages_cons]
              exact small

-- Exactly the node's pages become free.
theorem marked_pages (start : Addr) (front back : List Node) (node : Node) (taken : node.free = false)
    (tiles : TilesFrom start (front ++ node :: back)) (small : totalPages (front ++ node :: back) ≤ 2 ^ 52) :
    pagesOf true (front ++ { node with free := true } :: back) = pagesOf true (front ++ node :: back) ∪ nodePages node ∧
      pagesOf false (front ++ { node with free := true } :: back) = pagesOf false (front ++ node :: back) \ nodePages node := by
  have before := pages_of_taken node back taken
  have after := pages_of_free { node with free := true } back rfl
  have here : nodePages { node with free := true } = nodePages node := rfl
  rw [here] at after
  have apart := free_taken_disjoint start _ (tiles_mark start front back node tiles) ((total_mark front back node).trans_le small)
  simp only [pages_append, before.1, before.2, after.1, after.2] at apart ⊢
  constructor
  · rw [Set.union_assoc, Set.union_comm (pagesOf true back)]
  · ext page
    have notBoth : page ∈ nodePages node → page ∉ pagesOf false front ∪ pagesOf false back := fun inNode =>
      Set.disjoint_left.mp apart (.inr (.inl inNode))
    simp only [Set.mem_sdiff, Set.mem_union] at notBoth ⊢
    tauto

theorem merged_at_apart (node next : Node) (rest front : List Node) (used : next.free = false)
    (passed : ∀ other ∈ front, other.free = false) :
    mergedAt node (next :: rest) front = front ++ { node with free := true } :: next :: rest := by
  have behind : joinFree { node with free := true } (next :: rest) = { node with free := true } :: next :: rest := by
    rw [joinFree, used, if_neg Bool.false_ne_true]
  induction front with
  | nil => exact behind
  | cons prev front ih =>
      obtain ⟨here, later⟩ := List.forall_mem_cons.mp passed
      cases front with
      | nil =>
          rw [mergedAt, here, if_neg Bool.false_ne_true, behind]
          rfl
      | cons second front => exact congrArg (prev :: ·) (ih later)

namespace Linked

theorem nodes_rep_chain (memory : Memory) (head : Ptr) (pointers : List Ptr) (nodes : List Node)
    (rep : NodesRep memory head pointers nodes) : Walk.Chain 0 (fun node => (memory.nodes node).next) head pointers := by
  induction rep with
  | nil => rfl
  | cons node pointers nodes notNull rest ih => exact ⟨rfl, notNull, ih⟩

theorem nodes_rep_length (memory : Memory) (head : Ptr) (pointers : List Ptr) (nodes : List Node)
    (rep : NodesRep memory head pointers nodes) : pointers.length = nodes.length := by
  induction rep with
  | nil => rfl
  | cons node pointers nodes notNull rest ih => exact congrArg (· + 1) ih

-- From a node on the chain may be another one, as long as what is before that node stays.
theorem nodes_rep_replace (memory after : Memory) (head target next : Ptr) (frontPointers backPointers others : List Ptr)
    (front back changed : List Node) (node other : Node) (same : frontPointers.length = front.length)
    (rep : NodesRep memory head (frontPointers ++ target :: backPointers) (front ++ node :: back))
    (kept : ∀ pointer ∈ frontPointers, after.nodes pointer = memory.nodes pointer)
    (here : after.nodes target = ⟨other, next⟩) (behind : NodesRep after next others changed) :
    NodesRep after head (frontPointers ++ target :: others) (front ++ other :: changed) := by
  induction front generalizing head frontPointers with
  | nil =>
      obtain rfl := List.eq_nil_of_length_eq_zero same
      cases rep with
      | cons _ _ _ notNull rest => exact nodes_rep_cons after target next others other changed notNull here behind
  | cons first front ih =>
      cases frontPointers with
      | nil => cases same
      | cons pointer frontPointers =>
          obtain ⟨stays, later⟩ := List.forall_mem_cons.mp kept
          cases rep with
          | cons _ _ _ notNull rest =>
              exact nodes_rep_cons after head _ _ _ _ notNull stays
                (ih _ frontPointers (Nat.succ.inj same) rest later)

-- The node that free_region finds: those before it are not free and start elsewhere.
structure Reached (reg : RegDesc) (memory : Memory) (pointers : List Ptr) (front back : List Node) (node : Node) : Prop where
  owned : Owned memory reg.list pointers (front ++ node :: back)
  tiles : Tiles ⟨reg.regStart, reg.regSize, front ++ node :: back⟩
  passed : ∀ other ∈ front, other.free = false ∧ other.allocSt ≠ node.allocSt
  taken : node.free = false

-- given is a node that kfree was called with.
def GivenBack (memory after : Memory) (given : Ptr) : Prop := after.live.count given < memory.live.count given

structure Freed (reg : RegDesc) (memory after : Memory) (front back : List Node) (node : Node) : Prop where
  listed : ∃ pointers, NodesRep after reg.list pointers (mergedAt node back front) ∧
    ∀ given, GivenBack memory after given → given ∉ pointers
  tiles : Tiles ⟨reg.regStart, reg.regSize, mergedAt node back front⟩
  free : pagesOf true (mergedAt node back front) = pagesOf true (front ++ node :: back) ∪ nodePages node
  used : pagesOf false (mergedAt node back front) = pagesOf false (front ++ node :: back) \ nodePages node

def FreesRegion (reg : RegDesc) (memory : Memory) (front back : List Node) (node : Node) : Prop :=
  ∃ fuel after, freeRegion fuel reg node.allocSt memory = some after ∧ Freed reg memory after front back node

-- What the walk has in its hands at the node it stops at.
structure Found (memory : Memory) (pointers frontPointers backPointers : List Ptr) (target : Ptr) (front back : List Node)
    (node : Node) : Prop where
  split : pointers = frontPointers ++ target :: backPointers
  same : frontPointers.length = front.length
  owned : Owned memory target (target :: backPointers) (node :: back)
  apart : target ∉ frontPointers

theorem free_from_found (whereAddr : Addr) (memory : Memory) (prev cur : Ptr) (pointers : List Ptr) (front back : List Node)
    (node : Node) (owned : Owned memory cur pointers (front ++ node :: back)) (found : node.allocSt = whereAddr)
    (passed : ∀ other ∈ front, other.free = false ∧ other.allocSt ≠ whereAddr) (taken : node.free = false)
    (behind : prev ≠ 0 → (memory.nodes prev).free = false ∧ prev ∉ pointers) :
    ∃ frontPointers target backPointers last, Found memory pointers frontPointers backPointers target front back node ∧
      (last ≠ 0 → (memory.nodes last).free = false ∧ last ≠ target) ∧
      ∀ fuel, freeFrom whereAddr fuel prev cur memory =
        if front.length < fuel then (mergeNext target memory).map (mergePrev last target) else none := by
  induction front generalizing prev cur pointers with
  | nil =>
      cases pointers with
      | nil => cases owned.rep
      | cons target backPointers =>
          obtain ⟨rfl, rfl, notNull, _, _, _⟩ := owned_tail memory cur target backPointers node back owned
          refine ⟨[], cur, backPointers, prev, ⟨rfl, rfl, owned, List.not_mem_nil⟩, ?_, fun fuel => ?_⟩
          · intro nonzero
            exact ⟨(behind nonzero).1, List.ne_of_not_mem_cons (behind nonzero).2⟩
          · cases fuel with
            | zero => rfl
            | succ fuel =>
                rw [freeFrom, if_neg notNull, taken, if_neg Bool.false_ne_true, if_pos found,
                  if_pos (show ([] : List Node).length < fuel + 1 from Nat.succ_pos fuel)]
  | cons first front ih =>
      cases pointers with
      | nil => cases owned.rep
      | cons pointer pointers =>
          obtain ⟨rfl, rfl, notNull, _, absent, rest⟩ := owned_tail memory cur pointer pointers first _ owned
          obtain ⟨⟨used, elsewhere⟩, later⟩ := List.forall_mem_cons.mp passed
          obtain ⟨frontPointers, target, backPointers, last, ⟨split, same, there, apart⟩, lastUsed, walk⟩ :=
            ih cur _ pointers rest later (fun _ => ⟨used, absent⟩)
          refine ⟨cur :: frontPointers, target, backPointers, last, ⟨?_, congrArg (· + 1) same, there, ?_⟩, lastUsed, ?_⟩
          · rw [split, List.cons_append]
          · refine List.not_mem_cons_of_ne_of_not_mem (fun same => absent ?_) apart
            rw [← same, split]
            simp
          · intro fuel
            cases fuel with
            | zero => rfl
            | succ fuel =>
                rw [freeFrom, if_neg notNull, used, if_neg Bool.false_ne_true, if_neg elsewhere, walk fuel]
                simp only [List.length_cons, Nat.add_lt_add_iff_right]

theorem merge_prev_used (last target : Ptr) (memory : Memory) (used : last ≠ 0 → (memory.nodes last).free = false) :
    mergePrev last target memory = memory.set target fun node => { node with free := true } := by
  rw [mergePrev, if_neg]
  rintro ⟨nonzero, free⟩
  rw [used nonzero] at free
  exact Bool.false_ne_true free

-- Where the successor is free, the one behind it is given back but stays linked.
theorem merge_next_free (memory : Memory) (target next third : Ptr) (backPointers : List Ptr) (node first second : Node)
    (rest : List Node) (owned : Owned memory target (target :: next :: third :: backPointers) (node :: first :: second :: rest))
    (free : first.free = true) :
    ∃ after, mergeNext target memory = some after ∧ after.nodes target = ⟨joinNodes node second, third⟩ ∧
      (∀ pointer, pointer ≠ target → after.nodes pointer = memory.nodes pointer) ∧ after.live = memory.live.erase third := by
  obtain ⟨_, rfl, notNull, _, absent, behind⟩ := owned_tail memory target target _ node _ owned
  obtain ⟨linked, rfl, nextNotNull, _, _, afterNext⟩ := owned_tail memory _ next _ first _ behind
  obtain ⟨linkedThird, rfl, thirdNotNull, _, _, _⟩ := owned_tail memory _ third _ second _ afterNext
  have thirdApart : third ≠ target := fun same => absent (by simp [same])
  subst linked
  subst linkedThird
  have relinked : ∀ change : LlNode → LlNode, (memory.set target change).nodes target = change (memory.nodes target) :=
    fun change => by rw [set_nodes, if_pos rfl]
  simp only [mergeNext, if_neg nextNotNull, if_pos free, relinked, if_neg thirdNotNull, Option.some.injEq, exists_eq_left']
  refine ⟨?_, ?_, ?_⟩
  · simp [kfree, joinNodes, thirdApart]
  · intro pointer different
    simp [kfree, different]
  · simp [kfree]

theorem merge_next_last (memory : Memory) (target : Ptr) (backPointers : List Ptr) (node : Node) (back : List Node)
    (owned : Owned memory target (target :: backPointers) (node :: back)) (short : back.length ≤ 1)
    (free : ∀ next ∈ back, next.free = true) : mergeNext target memory = none := by
  obtain ⟨_, _, _, _, absent, behind⟩ := owned_tail memory target target _ node _ owned
  have sameLength := nodes_rep_length memory _ _ _ behind.rep
  cases back with
  | nil =>
      obtain rfl := List.length_eq_zero_iff.mp sameLength
      have null : (memory.nodes target).next = 0 := nodes_rep_chain memory _ [] [] behind.rep
      rw [mergeNext, if_pos null]
  | cons next rest =>
      obtain rfl : rest = [] := List.length_eq_zero_iff.mp (Nat.le_zero.mp (Nat.le_of_succ_le_succ short))
      obtain ⟨pointer, rfl⟩ := List.length_eq_one_iff.mp sameLength
      obtain ⟨rfl, rfl, notNull, _, _, afterNext⟩ := owned_tail memory _ pointer [] next [] behind
      have null : (memory.nodes (memory.nodes target).next).next = 0 := nodes_rep_chain memory _ [] [] afterNext.rep
      rw [mergeNext, if_neg notNull, free _ List.mem_cons_self, if_pos rfl]
      dsimp only
      rw [set_nodes, if_pos rfl, if_pos null]

-- A node with no successor, or with a free one, is not freed as it should be.
theorem free_region_fails (reg : RegDesc) (memory : Memory) (pointers : List Ptr) (front back : List Node) (node : Node)
    (reached : Reached reg memory pointers front back node) (free : ∀ next rest, back = next :: rest → next.free = true) :
    ¬ FreesRegion reg memory front back node := by
  rintro ⟨fuel, after, done, freed⟩
  obtain ⟨changed, rep, unlinked⟩ := freed.listed
  obtain ⟨frontPointers, target, backPointers, last, ⟨rfl, same, there, apart⟩, lastUsed, walk⟩ := free_from_found node.allocSt
    memory 0 reg.list pointers front back node reached.owned rfl reached.passed reached.taken (fun nonzero => absurd rfl nonzero)
  rw [freeRegion, walk fuel] at done
  split at done
  · rcases back with _ | ⟨next, _ | ⟨second, rest⟩⟩
    · rw [merge_next_last memory target _ node [] there (Nat.zero_le 1) (by simp)] at done
      cases done
    · rw [merge_next_last memory target _ node [next] there (Nat.le_refl 1) (by simpa using free next [] rfl)] at done
      cases done
    · obtain ⟨nextPointer, third, others, rfl⟩ : ∃ nextPointer third others, backPointers = nextPointer :: third :: others := by
        have sameLength := nodes_rep_length memory _ _ _ there.rep
        rcases backPointers with _ | ⟨nextPointer, _ | ⟨third, others⟩⟩
        · simp at sameLength
        · simp at sameLength
        · exact ⟨nextPointer, third, others, rfl⟩
      obtain ⟨middle, mergeEq, grown, kept, live⟩ :=
        merge_next_free memory target nextPointer third others node next second rest there (free next _ rfl)
      have used : last ≠ 0 → (middle.nodes last).free = false := fun nonzero => by
        rw [kept last (lastUsed nonzero).2]
        exact (lastUsed nonzero).1
      rw [mergeEq, Option.map_some, merge_prev_used last target middle used] at done
      obtain rfl := Option.some.inj done
      have elsewhere : ∀ pointer, pointer ≠ target →
          (middle.set target fun node => { node with free := true }).nodes pointer = memory.nodes pointer :=
        fun pointer different => by rw [set_nodes, if_neg different, kept pointer different]
      obtain ⟨_, rfl, _, _, absent, behind⟩ := owned_tail memory target target _ node _ there
      obtain ⟨rfl, rfl, _, _, _, afterNext⟩ := owned_tail memory _ nextPointer _ next _ behind
      obtain ⟨linkedThird, _, _, thirdLive, _, _⟩ := owned_tail memory _ third _ second _ afterNext
      have stays := nodes_rep_replace memory _ reg.list target third frontPointers _ (third :: others) front _ (second :: rest)
        _ { joinNodes (memory.nodes target).toNode second with free := true } same reached.owned.rep
        (fun pointer member => elsewhere pointer (fun same => apart (same ▸ member)))
        (by rw [set_nodes, if_pos rfl, grown])
        (nodes_rep_frame memory _ third _ _ (linkedThird ▸ afterNext.rep) (fun pointer member =>
          elsewhere pointer (fun same => absent (List.mem_cons_of_mem _ (same ▸ member)))))
      obtain rfl := Walk.chain_unique 0 _ _ _ _ (nodes_rep_chain _ _ _ _ rep) (nodes_rep_chain _ _ _ _ stays)
      refine unlinked third ?_ (by simp)
      rw [GivenBack, set_live, live, List.count_erase_self]
      have listed := List.count_pos_iff.mpr thirdLive
      omega
  · cases done

-- free_region keeps its promise exactly where there is a next node and it is not free.
theorem frees_region_iff (reg : RegDesc) (memory : Memory) (pointers : List Ptr) (front back : List Node) (node : Node)
    (reached : Reached reg memory pointers front back node) :
    FreesRegion reg memory front back node ↔ ∃ next rest, back = next :: rest ∧ next.free = false := by
  constructor
  · intro frees
    by_contra unused
    refine free_region_fails reg memory pointers front back node reached (fun next rest split => ?_) frees
    exact Bool.of_not_eq_false fun used => unused ⟨next, rest, split, used⟩
  · rintro ⟨next, rest, rfl, used⟩
    obtain ⟨owned, tiles, passed, taken⟩ := reached
    have small := tiles.total ▸ tiles.small
    obtain ⟨frontPointers, target, backPointers, last, ⟨rfl, same, there, apart⟩, lastUsed, walk⟩ :=
      free_from_found node.allocSt memory 0 reg.list pointers front (next :: rest) node owned rfl passed taken
        (fun nonzero => absurd rfl nonzero)
    have marks : (memory.set target fun node => { node with free := true }).nodes target =
        { memory.nodes target with free := true } := by rw [set_nodes, if_pos rfl]
    have elsewhere : ∀ pointer, pointer ≠ target →
        (memory.set target fun node => { node with free := true }).nodes pointer = memory.nodes pointer :=
      fun pointer different => by rw [set_nodes, if_neg different]
    obtain ⟨_, rfl, notNull, _, absent, behind⟩ := owned_tail memory target target _ node _ there
    have merged := merged_at_apart (memory.nodes target).toNode next rest front used (fun other member => (passed other member).1)
    have list := merged_at_same reg.regStart (memory.nodes target).toNode (next :: rest) front tiles.chained small
    have pages := marked_pages reg.regStart front (next :: rest) (memory.nodes target).toNode taken tiles.chained small
    have linked : (memory.nodes target).next ≠ 0 ∧ (memory.nodes (memory.nodes target).next).free = false := by
      cases backPointers with
      | nil => cases nodes_rep_length memory _ _ _ behind.rep
      | cons pointer others =>
          obtain ⟨rfl, rfl, nonzero, _⟩ := owned_tail memory _ pointer others next rest behind
          exact ⟨nonzero, used⟩
    refine ⟨front.length + 1, memory.set target fun node => { node with free := true }, ?_, ⟨?_, ?_, ?_, ?_⟩⟩
    · rw [freeRegion, walk, if_pos (Nat.lt_succ_self _), mergeNext, if_neg linked.1, linked.2, if_neg Bool.false_ne_true,
        Option.map_some, merge_prev_used last target memory (fun nonzero => (lastUsed nonzero).1)]
    · refine ⟨frontPointers ++ target :: backPointers, ?_, fun given less => absurd less (Nat.lt_irrefl _)⟩
      rw [merged]
      refine nodes_rep_replace memory _ reg.list target (memory.nodes target).next frontPointers backPointers _ front
        (next :: rest) _ _ _ same owned.rep (fun pointer member => elsewhere pointer (fun same => apart (same ▸ member))) marks ?_
      exact nodes_rep_frame memory _ _ _ _ behind.rep (fun pointer member =>
        elsewhere pointer (fun same => absent (same ▸ member)))
    · exact ⟨tiles.small, list.tiles, list.total.trans ((total_mark front _ _).trans tiles.total)⟩
    · rw [list.pages]
      exact pages.1
    · rw [list.pages]
      exact pages.2

def threeNodes (secondFree : Bool) : Memory where
  nodes := fun node =>
    if node = 4096 then ⟨⟨0x10000, 1, false⟩, 8192⟩
    else if node = 8192 then ⟨⟨0x11000, 1, secondFree⟩, 12288⟩
    else ⟨⟨0x12000, 2, false⟩, 0⟩
  mallocs := 3
  live := [12288, 8192, 4096]

def fourPages : RegDesc := ⟨0x10000, 4, 4096⟩

theorem three_nodes_reached (secondFree : Bool) : Reached fourPages (threeNodes secondFree) [4096, 8192, 12288] []
    [⟨0x11000, 1, secondFree⟩, ⟨0x12000, 2, false⟩] ⟨0x10000, 1, false⟩ where
  owned := by
    refine ⟨?_, by decide, by simp [threeNodes]⟩
    refine nodes_rep_cons _ _ 8192 _ _ _ (by decide) rfl ?_
    refine nodes_rep_cons _ _ 12288 _ _ _ (by decide) rfl ?_
    exact nodes_rep_cons _ _ 0 _ _ _ (by decide) rfl .nil
  tiles := by
    have small : (4 : BitVec 64).toNat ≤ 2 ^ 52 := by decide
    have second : (0x11000 : Addr) = 0x10000 + (1 : BitVec 64) <<< 12 := by decide
    have third : (0x12000 : Addr) = 0x10000 + (1 : BitVec 64) <<< 12 + (1 : BitVec 64) <<< 12 := by decide
    exact ⟨small, ⟨rfl, second, third, trivial⟩, by cases secondFree <;> decide⟩
  passed := fun _ member => absurd member List.not_mem_nil
  taken := rfl

theorem first_of_three_freed :
    FreesRegion fourPages (threeNodes false) [] [⟨0x11000, 1, false⟩, ⟨0x12000, 2, false⟩] ⟨0x10000, 1, false⟩ :=
  (frees_region_iff fourPages (threeNodes false) _ [] _ _ (three_nodes_reached false)).mpr ⟨_, _, rfl, rfl⟩

-- The first node takes the two pages of the third, which is given back and stays in the list.
theorem third_node_lost :
    (freeRegion 1 fourPages 0x10000 (threeNodes true)).map
        (fun after => (after.nodes 4096, after.nodes 12288, after.live)) =
      some (⟨⟨0x10000, 3, true⟩, 12288⟩, ⟨⟨0x12000, 2, false⟩, 0⟩, [8192, 4096]) ∧
      ¬ FreesRegion fourPages (threeNodes true) [] [⟨0x11000, 1, true⟩, ⟨0x12000, 2, false⟩] ⟨0x10000, 1, false⟩ := by
  refine ⟨by decide, free_region_fails fourPages (threeNodes true) _ [] _ _ (three_nodes_reached true) ?_⟩
  rintro next rest split
  obtain ⟨rfl, _⟩ := List.cons.inj split
  rfl

end Linked

end Kraftwerk.Vmem
