import Kraftwerk.Vmem.BootReservation

set_option autoImplicit false

-- Where a region's nodes form a chain that ends in NULL, the functions over memory do
-- to it what those on lists do to the list of its nodes.
namespace Kraftwerk.Vmem.Linked

open Runs

inductive NodesRep (memory : Memory) : Ptr → List Ptr → List Node → Prop where
  | nil : NodesRep memory 0 [] []
  | cons (node : Ptr) (pointers : List Ptr) (nodes : List Node) (notNull : node ≠ 0)
      (rest : NodesRep memory (memory.nodes node).next pointers nodes) :
      NodesRep memory node (node :: pointers) ((memory.nodes node).toNode :: nodes)

structure Owned (memory : Memory) (cur : Ptr) (pointers : List Ptr) (nodes : List Node) : Prop where
  rep : NodesRep memory cur pointers nodes
  distinct : pointers.Nodup
  live : ∀ node ∈ pointers, node ∈ memory.live

-- The chain from a node is replaced by another one, and no other node in use changes.
structure Rewritten (memory after : Memory) (cur : Ptr) (pointers changed : List Ptr) (nodes : List Node) : Prop where
  owned : Owned after cur changed nodes
  frame : ∀ node ∈ memory.live, node ∉ pointers → after.nodes node = memory.nodes node ∧ node ∉ changed
  live : ∀ node ∈ memory.live, node ∈ after.live

theorem nodes_rep_cons (memory : Memory) (cur next : Ptr) (pointers : List Ptr) (first : Node) (nodes : List Node)
    (notNull : cur ≠ 0) (here : memory.nodes cur = ⟨first, next⟩) (rest : NodesRep memory next pointers nodes) :
    NodesRep memory cur (cur :: pointers) (first :: nodes) := by
  have same : (memory.nodes cur).toNode = first := by rw [here]
  rw [← same]
  exact .cons cur pointers nodes notNull (by rw [here]; exact rest)

theorem nodes_rep_frame (memory after : Memory) (cur : Ptr) (pointers : List Ptr) (nodes : List Node)
    (rep : NodesRep memory cur pointers nodes) (same : ∀ node ∈ pointers, after.nodes node = memory.nodes node) :
    NodesRep after cur pointers nodes := by
  induction rep with
  | nil => exact .nil
  | cons node pointers nodes notNull rest ih =>
      have now := List.forall_mem_cons.mp same
      have later := ih now.2
      rw [← now.1] at later ⊢
      exact .cons node pointers nodes notNull later

theorem owned_tail (memory : Memory) (cur node : Ptr) (pointers : List Ptr) (first : Node) (nodes : List Node)
    (owned : Owned memory cur (node :: pointers) (first :: nodes)) :
    cur = node ∧ (memory.nodes node).toNode = first ∧ node ≠ 0 ∧ node ∈ memory.live ∧ node ∉ pointers ∧
      Owned memory (memory.nodes node).next pointers nodes := by
  obtain ⟨absent, restDistinct⟩ := List.nodup_cons.mp owned.distinct
  obtain ⟨here, restLive⟩ := List.forall_mem_cons.mp owned.live
  cases owned.rep with
  | cons _ _ _ notNull rest => exact ⟨rfl, rfl, notNull, here, absent, rest, restDistinct, restLive⟩

theorem rewritten_refl (memory : Memory) (cur : Ptr) (pointers : List Ptr) (nodes : List Node)
    (owned : Owned memory cur pointers nodes) : Rewritten memory memory cur pointers pointers nodes where
  owned := owned
  frame := fun _ _ absent => ⟨rfl, absent⟩
  live := fun _ live => live

theorem rewritten_trans (memory middle after : Memory) (cur : Ptr) (pointers between changed : List Ptr)
    (some nodes : List Node) (first : Rewritten memory middle cur pointers between some)
    (second : Rewritten middle after cur between changed nodes) :
    Rewritten memory after cur pointers changed nodes where
  owned := second.owned
  frame := by
    intro node live absent
    obtain ⟨same, apart⟩ := first.frame node live absent
    obtain ⟨later, missing⟩ := second.frame node (first.live node live) apart
    exact ⟨later.trans same, missing⟩
  live := fun node live => second.live node (first.live node live)

theorem rewritten_cons (memory after : Memory) (cur : Ptr) (pointers changed : List Ptr) (first : Node)
    (nodes later : List Node) (owned : Owned memory cur (cur :: pointers) (first :: nodes))
    (rest : Rewritten memory after (memory.nodes cur).next pointers changed later) :
    Rewritten memory after cur (cur :: pointers) (cur :: changed) (first :: later) := by
  obtain ⟨_, rfl, notNull, live, absent, _⟩ := owned_tail memory cur cur pointers first nodes owned
  obtain ⟨same, missing⟩ := rest.frame cur live absent
  refine ⟨⟨?_, List.nodup_cons.mpr ⟨missing, rest.owned.distinct⟩, ?_⟩, ?_, rest.live⟩
  · exact nodes_rep_cons after cur (memory.nodes cur).next changed _ later notNull same rest.owned.rep
  · exact List.forall_mem_cons.mpr ⟨rest.live cur live, rest.owned.live⟩
  · intro node nodeLive apart
    obtain ⟨different, apart⟩ := List.ne_and_not_mem_of_not_mem_cons apart
    obtain ⟨unchanged, gone⟩ := rest.frame node nodeLive apart
    exact ⟨unchanged, List.not_mem_cons_of_ne_of_not_mem different gone⟩

theorem rewritten_mark (memory : Memory) (cur : Ptr) (pointers : List Ptr) (first : Node) (nodes : List Node)
    (owned : Owned memory cur (cur :: pointers) (first :: nodes)) :
    Rewritten memory (memory.set cur fun node => { node with free := false }) cur (cur :: pointers) (cur :: pointers)
      ({ first with free := false } :: nodes) := by
  obtain ⟨_, rfl, notNull, live, absent, rest⟩ := owned_tail memory cur cur pointers first nodes owned
  have elsewhere : ∀ node, node ≠ cur →
      (memory.set cur fun node => { node with free := false }).nodes node = memory.nodes node :=
    fun node different => by rw [set_nodes, if_neg different]
  have marked : (memory.set cur fun node => { node with free := false }).nodes cur =
      { memory.nodes cur with free := false } := by
    rw [set_nodes, if_pos rfl]
  refine ⟨⟨?_, owned.distinct, owned.live⟩, ?_, fun _ live => live⟩
  · refine nodes_rep_cons _ cur (memory.nodes cur).next pointers _ nodes notNull marked ?_
    refine nodes_rep_frame memory _ _ pointers nodes rest.rep (fun node member => elsewhere node ?_)
    exact fun same => absent (same ▸ member)
  · intro node _ apart
    exact ⟨elsewhere node (List.ne_of_not_mem_cons apart), apart⟩

theorem rewritten_mark_second (memory : Memory) (cur node : Ptr) (pointers : List Ptr) (first second : Node)
    (nodes : List Node) (owned : Owned memory cur (cur :: node :: pointers) (first :: second :: nodes)) :
    Rewritten memory (memory.set node fun node => { node with free := false }) cur (cur :: node :: pointers)
      (cur :: node :: pointers) (first :: { second with free := false } :: nodes) := by
  obtain ⟨_, _, _, _, _, behind⟩ := owned_tail memory cur cur _ first _ owned
  obtain ⟨rfl, _⟩ := owned_tail memory _ node pointers second nodes behind
  exact rewritten_cons memory _ cur _ _ first _ _ owned (rewritten_mark memory _ pointers second nodes behind)

theorem rewritten_bisect (memory cut : Memory) (cur newNode : Ptr) (pointers : List Ptr) (first : Node) (nodes : List Node)
    (newSize : BitVec 64) (owned : Owned memory cur (cur :: pointers) (first :: nodes))
    (bisected : Bisected memory cut cur newNode newSize) :
    Rewritten memory cut cur (cur :: pointers) (cur :: newNode :: pointers)
      ((Vmem.bisectNode first newSize).1 :: (Vmem.bisectNode first newSize).2 :: nodes) := by
  obtain ⟨_, rfl, notNull, live, absent, rest⟩ := owned_tail memory cur cur pointers first nodes owned
  have fresh : ∀ node ∈ memory.live, node ≠ newNode := fun node nodeLive same => bisected.unused (same ▸ nodeLive)
  have apart := Ne.symm (fresh cur live)
  have restLive := (List.forall_mem_cons.mp owned.live).2
  have unchanged : ∀ node ∈ pointers, cut.nodes node = memory.nodes node := fun node member =>
    bisected.elsewhere node (fun same => absent (same ▸ member)) (fresh node (restLive node member))
  have unlisted : newNode ∉ pointers := fun member => bisected.unused (restLive newNode member)
  have behind : NodesRep cut newNode (newNode :: pointers) ((Vmem.bisectNode (memory.nodes cur).toNode newSize).2 :: nodes) :=
    nodes_rep_cons cut newNode _ pointers _ nodes bisected.notNull (bisected.made apart)
      (nodes_rep_frame memory cut _ pointers nodes rest.rep unchanged)
  refine ⟨⟨?_, ?_, ?_⟩, ?_, ?_⟩
  · exact nodes_rep_cons cut cur newNode (newNode :: pointers) _ _ notNull (bisected.shrunk apart) behind
  · refine List.nodup_cons.mpr ⟨List.not_mem_cons_of_ne_of_not_mem (Ne.symm apart) absent, ?_⟩
    exact List.nodup_cons.mpr ⟨unlisted, rest.distinct⟩
  · rw [bisected.live]
    simp only [List.forall_mem_cons]
    exact ⟨List.mem_cons_of_mem newNode live, List.mem_cons_self, fun node member =>
      List.mem_cons_of_mem newNode (restLive node member)⟩
  · intro node nodeLive outside
    obtain ⟨different, outside⟩ := List.ne_and_not_mem_of_not_mem_cons outside
    refine ⟨bisected.elsewhere node different (fresh node nodeLive), ?_⟩
    exact List.not_mem_cons_of_ne_of_not_mem different (List.not_mem_cons_of_ne_of_not_mem (fresh node nodeLive) outside)
  · intro node nodeLive
    rw [bisected.live]
    exact List.mem_cons_of_mem newNode nodeLive

-- A walk over memory never returns where the one over the list of its nodes does not, and
-- otherwise has the same result and leaves the nodes of the later list.
structure WalkRefines {Result : Type} (memory : Memory) (cur : Ptr) (pointers : List Ptr)
    (onList : Option (Result × List Node)) (onMemory : Option (Result × Memory)) : Prop where
  hangs : onList = none → onMemory = none
  returns : ∀ result later, onList = some (result, later) →
    ∃ after changed, onMemory = some (result, after) ∧ Rewritten memory after cur pointers changed later

section
variable {Result : Type} (memory : Memory) (cur : Ptr) (pointers : List Ptr)

theorem walk_hangs :
    WalkRefines memory cur pointers (none : Option (Result × List Node)) (none : Option (Result × Memory)) where
  hangs := fun _ => rfl
  returns := fun result later done => by cases done

theorem walk_returns (after : Memory) (changed : List Ptr) (result : Result) (later : List Node)
    (rewritten : Rewritten memory after cur pointers changed later) :
    WalkRefines memory cur pointers (some (result, later)) (some (result, after)) where
  hangs := fun none => by cases none
  returns := by
    intro found nodes done
    obtain ⟨rfl, rfl⟩ := Prod.mk.inj (Option.some.inj done)
    exact ⟨after, changed, rfl, rewritten⟩

-- A node that is walked past stays where it is.
theorem walk_cons (first : Node) (nodes : List Node) (owned : Owned memory cur (cur :: pointers) (first :: nodes))
    (onList : Option (Result × List Node)) (onMemory : Option (Result × Memory))
    (rest : WalkRefines memory (memory.nodes cur).next pointers onList onMemory) :
    WalkRefines memory cur (cur :: pointers) (onList.map fun (result, after) => (result, first :: after)) onMemory where
  hangs := fun none => rest.hangs (Option.map_eq_none_iff.mp none)
  returns := by
    intro result later done
    obtain ⟨⟨found, tail⟩, tailEq, same⟩ := Option.map_eq_some_iff.mp done
    obtain ⟨rfl, rfl⟩ := Prod.mk.inj same
    obtain ⟨after, changed, walk, rewritten⟩ := rest.returns found tail tailEq
    exact ⟨after, cur :: changed, walk, rewritten_cons memory after cur pointers changed first nodes tail owned rewritten⟩

end

-- A walk refines that on the list where each of its rounds does, given that the walk from the next node does.
theorem walk_refines {Result : Type} (memory : Memory) (onList : List Node → Option (Result × List Node))
    (onMemory : Nat → Ptr → Option (Result × Memory))
    (null : ∀ fuel, Owned memory 0 [] [] → WalkRefines memory 0 [] (onList []) (onMemory (fuel + 1) 0))
    (round : ∀ fuel cur pointers nodes, Owned memory cur (cur :: pointers) ((memory.nodes cur).toNode :: nodes) → cur ≠ 0 →
      WalkRefines memory (memory.nodes cur).next pointers (onList nodes) (onMemory fuel (memory.nodes cur).next) →
      WalkRefines memory cur (cur :: pointers) (onList ((memory.nodes cur).toNode :: nodes)) (onMemory (fuel + 1) cur))
    (fuel : Nat) (cur : Ptr) (pointers : List Ptr) (nodes : List Node) (owned : Owned memory cur pointers nodes)
    (enough : nodes.length < fuel) : WalkRefines memory cur pointers (onList nodes) (onMemory fuel cur) := by
  induction nodes generalizing fuel cur pointers with
  | nil =>
      obtain ⟨fuel, rfl⟩ := Nat.exists_eq_add_one.mpr (Nat.zero_lt_of_lt enough)
      cases owned.rep with
      | nil => exact null fuel owned
  | cons first nodes ih =>
      obtain ⟨fuel, rfl⟩ := Nat.exists_eq_add_one.mpr (Nat.zero_lt_of_lt enough)
      cases pointers with
      | nil => cases owned.rep
      | cons node pointers =>
          obtain ⟨rfl, rfl, notNull, _, _, rest⟩ := owned_tail memory cur node pointers first nodes owned
          exact round fuel cur pointers nodes owned notNull (ih fuel _ pointers rest (Nat.lt_of_succ_lt_succ enough))

section
variable (kmalloc : Kmalloc)

theorem bisect_node_answers (memory : Memory) (answers : kmalloc.answer memory ≠ 0) (cur : Ptr) (newSize : BitVec 64) :
    ∃ newNode cut, bisectNode kmalloc cur newSize memory = some (newNode, cut) ∧
      Bisected memory cut cur newNode newSize := by
  have done : ∃ cut, bisectNode kmalloc cur newSize memory = some (kmalloc.answer memory, cut) :=
    ⟨_, if_neg answers⟩
  obtain ⟨cut, done⟩ := done
  exact ⟨_, cut, done, bisect_node_bisected kmalloc cur _ newSize memory cut done⟩

theorem allocate_from_refines (memory : Memory) (answers : kmalloc.answer memory ≠ 0) (nPages : BitVec 32) (fuel : Nat) (cur : Ptr)
    (pointers : List Ptr) (nodes : List Node) (owned : Owned memory cur pointers nodes)
    (enough : nodes.length < fuel) :
    WalkRefines memory cur pointers (allocateList nPages nodes) (allocateFrom kmalloc nPages fuel cur memory) := by
  refine walk_refines memory (allocateList nPages) (fun fuel cur => allocateFrom kmalloc nPages fuel cur memory) ?_ ?_
    fuel cur pointers nodes owned enough
  · intro fuel owned
    rw [allocateList, allocateFrom, if_pos rfl]
    exact walk_returns memory 0 [] memory [] none [] (rewritten_refl memory 0 [] [] owned)
  · intro fuel cur pointers nodes owned notNull onward
    rw [allocateList, allocateFrom, if_neg notNull]
    by_cases taken : (!(memory.nodes cur).free) = true
    · rw [if_pos taken, if_pos taken]
      exact walk_hangs memory cur _
    · rw [if_neg taken, if_neg taken]
      by_cases same : (memory.nodes cur).size = nPages.setWidth 64
      · rw [if_pos same, if_pos same]
        exact walk_returns memory cur _ _ _ _ _ (rewritten_mark memory cur pointers _ nodes owned)
      · rw [if_neg same, if_neg same]
        by_cases larger : nPages.setWidth 64 < (memory.nodes cur).size
        · rw [if_pos larger, if_pos larger]
          obtain ⟨newNode, cut, cutEq, bisected⟩ :=
            bisect_node_answers kmalloc memory answers cur (nPages.setWidth 64)
          have halves := rewritten_bisect memory cut cur newNode pointers _ nodes _ owned bisected
          have marked := rewritten_mark cut cur _ _ _ halves.owned
          have start : (cut.nodes cur).allocSt = (memory.nodes cur).allocSt := by
            obtain ⟨_, here, _⟩ := owned_tail cut cur cur _ _ _ halves.owned
            rw [here]
            rfl
          rw [cutEq, Option.map_some]
          simp only [set_nodes, if_true, start]
          exact walk_returns memory cur _ _ _ _ _ (rewritten_trans memory cut _ cur _ _ _ _ _ halves marked)
        · rw [if_neg larger, if_neg larger]
          exact walk_cons memory cur pointers _ nodes owned _ _ onward

theorem reserve_node_refines (memory : Memory) (answers : kmalloc.answer memory ≠ 0) (nPages : BitVec 32) (cur : Ptr)
    (pointers : List Ptr) (first : Node) (nodes : List Node) (owned : Owned memory cur (cur :: pointers) (first :: nodes)) :
    ∃ after changed, reserveNode kmalloc cur nPages memory = some after ∧
      Rewritten memory after cur (cur :: pointers) changed (Vmem.reserveNode first nPages ++ nodes) := by
  obtain ⟨_, rfl, _⟩ := owned_tail memory cur cur pointers first nodes owned
  rw [reserveNode, Vmem.reserveNode]
  by_cases larger : nPages.setWidth 64 < (memory.nodes cur).size
  · rw [if_pos larger, if_pos larger]
    obtain ⟨newNode, cut, cutEq, bisected⟩ := bisect_node_answers kmalloc memory answers cur (nPages.setWidth 64)
    have halves := rewritten_bisect memory cut cur newNode pointers _ nodes _ owned bisected
    have marked := rewritten_mark_second cut cur newNode pointers _ _ nodes halves.owned
    exact ⟨_, _, by rw [cutEq, Option.map_some], rewritten_trans memory cut _ cur _ _ _ _ _ halves marked⟩
  · rw [if_neg larger, if_neg larger]
    exact ⟨_, _, rfl, rewritten_mark memory cur pointers _ nodes owned⟩

theorem reserve_from_refines (memory : Memory) (answers : kmalloc.answer memory ≠ 0) (whereAddr : Addr) (nPages : BitVec 32)
    (fuel : Nat) (cur : Ptr) (pointers : List Ptr) (nodes : List Node)
    (owned : Owned memory cur pointers nodes) (enough : nodes.length < fuel) :
    WalkRefines memory cur pointers (reserveList whereAddr nPages nodes)
      (reserveFrom kmalloc whereAddr nPages fuel cur memory) := by
  refine walk_refines memory (reserveList whereAddr nPages) (fun fuel cur => reserveFrom kmalloc whereAddr nPages fuel cur memory)
    ?_ ?_ fuel cur pointers nodes owned enough
  · intro fuel owned
    rw [reserveList, reserveFrom, if_pos rfl]
    exact walk_returns memory 0 [] memory [] false [] (rewritten_refl memory 0 [] [] owned)
  · intro fuel cur pointers nodes owned notNull onward
    rw [reserveList, reserveFrom, if_neg notNull]
    by_cases taken : (!(memory.nodes cur).free) = true
    · rw [if_pos taken, if_pos taken]
      exact walk_hangs memory cur _
    · rw [if_neg taken, if_neg taken]
      by_cases fits : fitsReserve (memory.nodes cur).toNode whereAddr nPages = true
      · have starts := fits_starts _ whereAddr nPages fits
        obtain ⟨after, changed, cut, rewritten⟩ :=
          reserve_node_refines kmalloc memory answers nPages cur pointers _ nodes owned
        rw [if_pos fits, if_pos fits, reserveCut, Vmem.reserveCut, if_neg starts, if_neg starts, cut, Option.map_some]
        exact walk_returns memory cur _ after changed true _ rewritten
      · rw [if_neg fits, if_neg fits]
        exact walk_cons memory cur pointers _ nodes owned _ _ onward

theorem allocate_list_length (nPages : BitVec 32) (nodes after : List Node) (result : Option Addr)
    (done : allocateList nPages nodes = some (result, after)) : after.length ≤ nodes.length + 1 := by
  induction nodes generalizing after with
  | nil =>
      obtain ⟨_, rfl⟩ := Prod.mk.inj (Option.some.inj done)
      exact Nat.zero_le _
  | cons cur rest ih =>
      rw [allocateList] at done
      split at done
      · cases done
      · split at done
        · obtain ⟨_, rfl⟩ := Prod.mk.inj (Option.some.inj done)
          exact Nat.le_succ _
        · split at done
          · obtain ⟨_, rfl⟩ := Prod.mk.inj (Option.some.inj done)
            exact Nat.le_refl _
          · obtain ⟨⟨found, tail⟩, tailEq, same⟩ := Option.map_eq_some_iff.mp done
            obtain ⟨rfl, rfl⟩ := Prod.mk.inj same
            exact Nat.succ_le_succ (ih tail tailEq)

theorem reserve_node_length (cur : Node) (nPages : BitVec 32) : (Vmem.reserveNode cur nPages).length ≤ 2 := by
  rw [Vmem.reserveNode]
  split
  · exact Nat.le_refl _
  · exact Nat.le_succ _

theorem reserve_list_length (whereAddr : Addr) (nPages : BitVec 32) (nodes after : List Node) (reserved : Bool)
    (done : reserveList whereAddr nPages nodes = some (reserved, after)) : after.length ≤ nodes.length + 1 := by
  induction nodes generalizing after with
  | nil =>
      obtain ⟨_, rfl⟩ := Prod.mk.inj (Option.some.inj done)
      exact Nat.zero_le _
  | cons cur rest ih =>
      rw [reserveList] at done
      split at done
      · cases done
      · split at done
        · rename_i fits
          obtain ⟨_, rfl⟩ := Prod.mk.inj (Option.some.inj done)
          have two := reserve_node_length cur nPages
          rw [Vmem.reserveCut, if_neg (fits_starts cur whereAddr nPages fits), List.length_append, List.length_cons]
          omega
        · obtain ⟨⟨found, tail⟩, tailEq, same⟩ := Option.map_eq_some_iff.mp done
          obtain ⟨rfl, rfl⟩ := Prod.mk.inj same
          exact Nat.succ_le_succ (ih tail tailEq)

-- A call cuts at most one node in two, so that the walks get longer by one.
theorem step_length (state next : Vmem.State) (call : Vmem.Call) (stepped : Vmem.step state call = some next) :
    next.region.list.length ≤ state.region.list.length + 1 := by
  cases call with
  | allocate nPages =>
      obtain ⟨⟨result, region⟩, done, rfl⟩ := Option.map_eq_some_iff.mp stepped
      obtain ⟨⟨found, list⟩, listDone, same⟩ := Option.map_eq_some_iff.mp done
      obtain ⟨rfl, rfl⟩ := Prod.mk.inj same
      exact allocate_list_length nPages _ list found listDone
  | reserve whereAddr nPages =>
      obtain ⟨⟨result, region⟩, done, rfl⟩ := Option.map_eq_some_iff.mp stepped
      obtain ⟨⟨found, list⟩, listDone, same⟩ := Option.map_eq_some_iff.mp done
      obtain ⟨rfl, rfl⟩ := Prod.mk.inj same
      exact reserve_list_length whereAddr nPages _ list found listDone

-- The kernel's region and results as the list model has them.
structure KernRep (kern : Kern) (state : Vmem.State) : Prop where
  nodes : ∃ pointers, Owned kern.memory kern.hhReg.list pointers state.region.list
  regStart : kern.hhReg.regStart = state.region.regStart
  regSize : kern.hhReg.regSize = state.region.regSize
  results : kern.results = state.results

def kernCall : Vmem.Call → Call
  | .allocate nPages => .allocateKern nPages
  | .reserve whereAddr nPages => .reserveKern whereAddr nPages

theorem step_refines (fuel : Nat) (kern : Kern) (answers : kmalloc.answer kern.memory ≠ 0) (state : Vmem.State)
    (call : Vmem.Call) (rep : KernRep kern state) (enough : state.region.list.length < fuel) :
    (Vmem.step state call = none → step kmalloc fuel kern (kernCall call) = none) ∧
      ∀ next, Vmem.step state call = some next → ∃ later, step kmalloc fuel kern (kernCall call) = some later ∧
        KernRep later next := by
  obtain ⟨pointers, owned⟩ := rep.nodes
  cases call with
  | allocate nPages =>
      have walks := allocate_from_refines kmalloc kern.memory answers nPages fuel _ pointers _ owned enough
      refine ⟨fun none => ?_, fun next stepped => ?_⟩
      · have hangs := walks.hangs (Option.map_eq_none_iff.mp (Option.map_eq_none_iff.mp none))
        rw [kernCall, step, allocateRegion, hangs, Option.map_none]
      · obtain ⟨⟨result, region⟩, done, rfl⟩ := Option.map_eq_some_iff.mp stepped
        obtain ⟨⟨found, list⟩, listDone, same⟩ := Option.map_eq_some_iff.mp done
        obtain ⟨rfl, rfl⟩ := Prod.mk.inj same
        obtain ⟨after, changed, walk, rewritten⟩ := walks.returns found list listDone
        refine ⟨{ kern with memory := after, results := record found nPages kern.results }, ?_, ⟨changed, rewritten.owned⟩,
          rep.regStart, rep.regSize, congrArg (record found nPages) rep.results⟩
        rw [kernCall, step, allocateRegion, walk, Option.map_some]
  | reserve whereAddr nPages =>
      have walks := reserve_from_refines kmalloc kern.memory answers whereAddr nPages fuel _ pointers _ owned enough
      refine ⟨fun none => ?_, fun next stepped => ?_⟩
      · have hangs := walks.hangs (Option.map_eq_none_iff.mp (Option.map_eq_none_iff.mp none))
        rw [kernCall, step, reserveRegion, hangs, Option.map_none]
      · obtain ⟨⟨result, region⟩, done, rfl⟩ := Option.map_eq_some_iff.mp stepped
        obtain ⟨⟨found, list⟩, listDone, same⟩ := Option.map_eq_some_iff.mp done
        obtain ⟨rfl, rfl⟩ := Prod.mk.inj same
        obtain ⟨after, changed, walk, rewritten⟩ := walks.returns found list listDone
        refine ⟨{ kern with memory := after }, ?_, ⟨changed, rewritten.owned⟩, rep.regStart, rep.regSize, rep.results⟩
        rw [kernCall, step, reserveRegion, walk, Option.map_some]

def Answers (kern : Kern) (_ : Call) : Prop := kmalloc.answer kern.memory ≠ 0

instance (kern : Kern) (call : Call) : Decidable (Answers kmalloc kern call) := inferInstanceAs (Decidable (_ ≠ _))

theorem run_refines (fuel : Nat) (kern : Kern) (state : Vmem.State) (calls : List Vmem.Call) (rep : KernRep kern state)
    (enough : state.region.list.length + calls.length < fuel)
    (answers : Along (step kmalloc fuel) (Answers kmalloc) kern (calls.map kernCall)) :
    (run Vmem.step state calls = none → run (step kmalloc fuel) kern (calls.map kernCall) = none) ∧
      ∀ last, run Vmem.step state calls = some last →
        ∃ later, run (step kmalloc fuel) kern (calls.map kernCall) = some later ∧ KernRep later last := by
  induction calls generalizing state kern with
  | nil =>
      refine ⟨fun none => absurd none (Option.some_ne_none state), fun last finished => ?_⟩
      obtain rfl := Option.some.inj finished
      exact ⟨kern, rfl, rep⟩
  | cons call rest ih =>
      rw [List.length_cons] at enough
      obtain ⟨hangs, returns⟩ := step_refines kmalloc fuel kern answers.1 state call rep (by omega)
      cases stepped : Vmem.step state call with
      | none =>
          refine ⟨fun _ => by rw [List.map_cons, run, hangs stepped, Option.bind_none], fun last finished => ?_⟩
          rw [run, stepped] at finished
          cases finished
      | some next =>
          obtain ⟨kernNext, kernStepped, nextRep⟩ := returns next stepped
          have grown := step_length state next call stepped
          rw [run, stepped, Option.bind_some, List.map_cons, run, kernStepped, Option.bind_some]
          exact ih kernNext next nextRep (by omega) (answers.2 kernNext kernStepped)

end

theorem booted_rep (start : Kern) (booted : Booted start) : KernRep start ⟨kernelRegion, []⟩ where
  nodes := by
    refine ⟨[start.hhReg.list], ?_, by simp, by simpa using booted.live⟩
    exact nodes_rep_cons start.memory start.hhReg.list 0 [] _ [] booted.notNull booted.whole .nil
  regStart := booted.regStart
  regSize := booted.regSize
  results := booted.results

-- Where kmalloc answers, the calls over memory return when those on the list of a tiled region do, with the same ranges, which
-- never overlap, and leave the nodes of the same list.
theorem kern_runs_refine (kmalloc : Kmalloc) (fuel : Nat) (kern : Kern) (region : Region) (calls : List Vmem.Call)
    (rep : KernRep kern ⟨region, []⟩) (tiles : Tiles region) (enough : region.list.length + calls.length < fuel)
    (answers : Along (step kmalloc fuel) (Answers kmalloc) kern (calls.map kernCall)) :
    (run Vmem.step ⟨region, []⟩ calls = none → run (step kmalloc fuel) kern (calls.map kernCall) = none) ∧
      ∀ last, run Vmem.step ⟨region, []⟩ calls = some last →
        ∃ later, run (step kmalloc fuel) kern (calls.map kernCall) = some later ∧ KernRep later last ∧ Tiles last.region ∧
          later.results.Pairwise (fun a b => Disjoint (allocationPages a) (allocationPages b)) := by
  obtain ⟨hangs, returns⟩ := run_refines kmalloc fuel kern ⟨region, []⟩ calls rep enough answers
  refine ⟨hangs, fun last finished => ?_⟩
  obtain ⟨later, done, laterRep⟩ := returns last finished
  have tiled := tiled_run_finished region tiles calls last finished
  exact ⟨later, done, laterRep, tiled.tiles, laterRep.results ▸ tiled.disjoint⟩

-- Two nodes, of which only the first one is free.
def pairMemory : Memory where
  nodes := fun node => if node = 32 then ⟨⟨0x1000, 4, true⟩, 64⟩ else ⟨⟨0x5000, 2, false⟩, 0⟩
  mallocs := 2
  live := [64, 32]

def pairKern : Kern := ⟨⟨0x1000, 6, 32⟩, pairMemory, []⟩

def pairRegion : Region := ⟨0x1000, 6, [⟨0x1000, 4, true⟩, ⟨0x5000, 2, false⟩]⟩

theorem pair_rep : KernRep pairKern ⟨pairRegion, []⟩ where
  nodes := by
    refine ⟨[32, 64], ?_, by decide, List.forall_mem_cons.mpr ⟨by decide, List.forall_mem_singleton.mpr (by decide)⟩⟩
    have second : NodesRep pairMemory 64 [64] [⟨0x5000, 2, false⟩] := .cons 64 [] [] (by decide) .nil
    exact .cons 32 [64] _ (by decide) second
  regStart := rfl
  regSize := rfl
  results := rfl

theorem pair_tiles : Tiles pairRegion where
  small := by decide
  chained := ⟨rfl, rfl, trivial⟩
  total := by decide

def pairCalls : List Vmem.Call := [.reserve 0x1000 3, .allocate 1]

theorem pair_runs_refine :
    (run Vmem.step ⟨pairRegion, []⟩ pairCalls = none → run (step rowKmalloc 5) pairKern (pairCalls.map kernCall) = none) ∧
      ∀ last, run Vmem.step ⟨pairRegion, []⟩ pairCalls = some last →
        ∃ later, run (step rowKmalloc 5) pairKern (pairCalls.map kernCall) = some later ∧ KernRep later last ∧ Tiles last.region ∧
          later.results.Pairwise (fun a b => Disjoint (allocationPages a) (allocationPages b)) :=
  kern_runs_refine rowKmalloc 5 pairKern pairRegion pairCalls pair_rep pair_tiles (by decide) (by decide)

end Kraftwerk.Vmem.Linked
