import Kraftwerk.Lib.Chain
import Kraftwerk.Pmem.Blocks

set_option autoImplicit false

-- decompose_block over the pmem_block nodes themselves. kmalloc gives the nodes of a list in
-- turn; NULL is 0.
namespace Kraftwerk.Pmem

open Walk Cover

structure Nodes where
  blockStart : Nat → Addr
  next : Nat → Nat
  freeLists : Nat → Nat

def Nodes.setStart (nodes : Nodes) (node : Nat) (start : Addr) : Nodes :=
  { nodes with blockStart := Function.update nodes.blockStart node start }

def Nodes.link (nodes : Nodes) (order node : Nat) : Nodes :=
  { nodes with next := Function.update nodes.next node (nodes.freeLists order), freeLists := Function.update nodes.freeLists order node }

def kmallocNode : List Nat → Option (Nat × List Nat)
  | [] => none
  | node :: rest => some (node, rest)

-- The block is split in two of an order; new_block takes the upper one.
def splitBlock (order block newBlock : Nat) (nodes : Nodes) : Nodes :=
  let nodes := nodes.setStart newBlock (alignBlock (nodes.blockStart block) order ^^^ intBit (order + 12))
  let nodes := nodes.setStart block (alignBlock (nodes.blockStart block) order)
  nodes.link order newBlock

def decomposeBlock (endOrder : Nat) : Nat → Nat → List Nat → Nodes → Option Nodes
  | 0, block, _, nodes => if 0 < endOrder then some nodes else some (nodes.link 0 block)
  | order + 1, block, fresh, nodes =>
      if order + 1 < endOrder then some nodes
      else if order + 1 = endOrder then some (nodes.link (order + 1) block)
      else
        (kmallocNode fresh).bind (fun (newBlock, rest) =>
          decomposeBlock endOrder order block rest (splitBlock order block newBlock nodes))

-- The nodes on the lists.
def Listed (nodes : Nodes) (chains : Nat → List Nat) : Prop :=
  ∀ order, Chain 0 nodes.next (nodes.freeLists order) (chains order)

structure Fresh (added : List Nat) (chains : Nat → List Nat) : Prop where
  distinct : added.Nodup
  nonzero : ∀ node ∈ added, node ≠ 0
  unlisted : ∀ node ∈ added, ∀ order, node ∉ chains order

-- The lowest block and the upper halves that are split off.
def parts (start : Addr) (startOrder endOrder : Nat) : List Block :=
  (endOrder, start) :: (List.range' endOrder (startOrder - endOrder)).map (fun order => (order, start ^^^ intBit (order + 12)))

def startsAt (blocks : List Block) (order : Nat) : List Addr := (blocks.filter (fun block => block.1 == order)).map Prod.snd

structure Partitions (start : Addr) (startOrder endOrder : Nat) (blocks : List Block) : Prop where
  orders : blocks.map Prod.fst = endOrder :: List.range' endOrder (startOrder - endOrder)
  lowest : blocks.head? = some (endOrder, start)
  upper : ∀ block ∈ blocks.tail, block.2.toNat = start.toNat + 2 ^ (block.1 + 12)
  aligned : ∀ block ∈ blocks, Aligned block
  disjoint : blocks.Pairwise (fun a b => Disjoint (bytes a) (bytes b))
  covers : ∀ byte, (∃ block ∈ blocks, byte ∈ bytes block) ↔ byte ∈ bytes (startOrder, start)

-- The blocks are put in front of what the lists hold.
structure Adds (nodes after : Nodes) (chains chainsAfter : Nat → List Nat) (blocks : List Block) : Prop where
  listed : Listed after chainsAfter
  added : ∀ order, ∃ front, chainsAfter order = front ++ chains order ∧ front.map after.blockStart = startsAt blocks order
  kept : ∀ order, ∀ node ∈ chains order, after.blockStart node = nodes.blockStart node

section Parts

variable (start : Addr) (order endOrder : Nat)

theorem parts_succ (below : endOrder ≤ order) :
    parts start (order + 1) endOrder = parts start order endOrder ++ [(order, start ^^^ intBit (order + 12))] := by
  have last : endOrder + (order - endOrder) = order := by omega
  rw [parts, parts, Nat.succ_sub below, List.range'_concat, List.map_append, Nat.one_mul, last]
  rfl

theorem parts_self : parts start endOrder endOrder = [(endOrder, start)] := by
  rw [parts, Nat.sub_self]
  rfl

theorem aligned_lower (aligned : Aligned (order, start)) (below : endOrder ≤ order) : Aligned (endOrder, start) :=
  Nat.dvd_trans (Nat.pow_dvd_pow 2 (Nat.add_le_add_right below 12)) aligned

-- Each split takes the upper half of what is left.
theorem parts_cover (small : order ≤ allocMaxOrder) (below : endOrder ≤ order) (aligned : Aligned (order, start)) (byte : Nat) :
    cover bytes (parts start order endOrder) byte = cover bytes [(order, start)] byte := by
  induction order with
  | zero =>
      obtain rfl := Nat.le_zero.mp below
      rw [parts_self]
  | succ order ih =>
      rcases Nat.eq_or_lt_of_le below with rfl | below
      · rw [parts_self]
      · have lower := aligned_below order start aligned
        have inside : order ≤ allocMaxOrder := by omega
        rw [parts_succ start order endOrder (Nat.le_of_lt_succ below), cover_append, ih inside (Nat.le_of_lt_succ below) lower]
        have halves : byte ∈ bytes (order + 1, start) ↔ byte ∈ bytes (order, start) ∨ byte ∈ bytes (order, start ^^^ intBit (order + 12)) := by
          rw [bytes_split start order inside lower start aligned rfl, Set.mem_union]
        have apart := bytes_buddy_disjoint start order inside lower
        simp only [cover_cons, cover_nil, Nat.zero_add]
        by_cases left : byte ∈ bytes (order, start)
        · rw [if_pos left, if_neg (Set.disjoint_left.mp apart left), if_pos (halves.mpr (.inl left))]
        · by_cases right : byte ∈ bytes (order, start ^^^ intBit (order + 12))
          · rw [if_neg left, if_pos right, if_pos (halves.mpr (.inr right))]
          · rw [if_neg left, if_neg right, if_neg (fun whole => (halves.mp whole).elim left right)]

theorem upper_half (small : order ≤ allocMaxOrder) (below : endOrder ≤ order) (aligned : Aligned (order, start)) (block : Block)
    (member : block ∈ (parts start order endOrder).tail) :
    block.2.toNat = start.toNat + 2 ^ (block.1 + 12) ∧ Aligned block := by
  obtain ⟨lower, inside, rfl⟩ := List.mem_map.mp member
  obtain ⟨_, above⟩ := List.mem_range'_1.mp inside
  have whole := aligned_lower start order (lower + 1) aligned (by omega)
  exact ⟨buddy_above start lower (by omega) whole, buddy_aligned start lower (by omega) (aligned_below lower start whole)⟩

theorem parts_partition (small : order ≤ allocMaxOrder) (below : endOrder ≤ order) (aligned : Aligned (order, start)) :
    Partitions start order endOrder (parts start order endOrder) where
  orders := by
    rw [parts, List.map_cons, List.map_map]
    exact congrArg (endOrder :: ·) (List.map_id _)
  lowest := rfl
  upper := fun block member => (upper_half start order endOrder small below aligned block member).1
  aligned := by
    intro block member
    rcases List.mem_cons.mp member with rfl | upper
    · exact aligned_lower start order endOrder aligned below
    · exact (upper_half start order endOrder small below aligned block upper).2
  disjoint := by
    refine (pairwise_disjoint_iff bytes _).mpr (fun byte => ?_)
    rw [parts_cover start order endOrder small below aligned, cover_cons, cover_nil]
    split <;> omega
  covers := by
    intro byte
    rw [← cover_pos_iff, parts_cover start order endOrder small below aligned, cover_pos_iff]
    simp

end Parts

section Linking

variable (nodes : Nodes) (chains : Nat → List Nat)

theorem link_listed (order node : Nat) (listed : Listed nodes chains) (nonzero : node ≠ 0) (unlisted : ∀ order, node ∉ chains order) :
    Listed (nodes.link order node) (Function.update chains order (node :: chains order)) := by
  have others : ∀ other, Chain 0 (nodes.link order node).next (nodes.freeLists other) (chains other) := by
    intro other
    refine chain_congr 0 nodes.next _ _ _ (listed other) (fun member inside => Function.update_of_ne ?_ _ _)
    rintro rfl
    exact unlisted other inside
  intro other
  by_cases same : other = order
  · subst same
    rw [Function.update_self, Nodes.link]
    dsimp only
    rw [Function.update_self]
    refine ⟨rfl, nonzero, ?_⟩
    rw [Function.update_self]
    exact others other
  · rw [Function.update_of_ne same, Nodes.link]
    dsimp only
    rw [Function.update_of_ne same]
    exact others other

theorem starts_at_append (front back : List Block) (order : Nat) :
    startsAt (front ++ back) order = startsAt front order ++ startsAt back order := by
  rw [startsAt, List.filter_append, List.map_append]
  rfl

theorem starts_at_single (order other : Nat) (start : Addr) : startsAt [(order, start)] other = if order = other then [start] else [] := by
  by_cases same : order = other
  · subst same
    simp [startsAt]
  · simp [startsAt, same]

theorem link_adds (order block : Nat) (rest : List Nat) (listed : Listed nodes chains) (fresh : Fresh (block :: rest) chains) :
    Adds nodes (nodes.link order block) chains (Function.update chains order (block :: chains order)) [(order, nodes.blockStart block)] where
  listed := link_listed nodes chains order block listed (fresh.nonzero block List.mem_cons_self) (fresh.unlisted block List.mem_cons_self)
  added := by
    intro other
    rw [starts_at_single]
    by_cases same : order = other
    · subst same
      rw [if_pos rfl, Function.update_self]
      exact ⟨[block], rfl, rfl⟩
    · rw [if_neg same, Function.update_of_ne (Ne.symm same)]
      exact ⟨[], rfl, rfl⟩
  kept := fun _ _ _ => rfl

end Linking

section Decompose

variable (nodes : Nodes) (chains : Nat → List Nat)

structure Decomposes (endOrder order block : Nat) (fresh : List Nat) (after : Nodes) (chainsAfter : Nat → List Nat) : Prop where
  done : decomposeBlock endOrder order block fresh nodes = some after
  adds : Adds nodes after chains chainsAfter (parts (nodes.blockStart block) order endOrder)
  frame : ∀ node, node ∉ block :: fresh → after.blockStart node = nodes.blockStart node

theorem decompose_block_last (order block : Nat) (fresh : List Nat) (listed : Listed nodes chains) (new : Fresh (block :: fresh) chains) :
    Decomposes nodes chains order order block fresh (nodes.link order block) (Function.update chains order (block :: chains order)) where
  done := by
    cases order with
    | zero => rfl
    | succ order => rw [decomposeBlock, if_neg (Nat.lt_irrefl _), if_pos rfl]
  adds := by
    rw [parts_self]
    exact link_adds nodes chains order block fresh listed new
  frame := fun _ _ => rfl

theorem fresh_swap (first second : Nat) (rest : List Nat) (new : Fresh (first :: second :: rest) chains) :
    Fresh (second :: first :: rest) chains where
  distinct := (List.Perm.swap first second rest).nodup_iff.mpr new.distinct
  nonzero := fun node member => new.nonzero node ((List.Perm.swap first second rest).mem_iff.mp member)
  unlisted := fun node member => new.unlisted node ((List.Perm.swap first second rest).mem_iff.mp member)

theorem fresh_rest (order node : Nat) (rest : List Nat) (new : Fresh (node :: rest) chains) :
    Fresh rest (Function.update chains order (node :: chains order)) where
  distinct := (List.nodup_cons.mp new.distinct).2
  nonzero := fun other member => new.nonzero other (List.mem_cons_of_mem node member)
  unlisted := by
    intro other member list
    have unlisted := new.unlisted other (List.mem_cons_of_mem node member)
    have different : other ≠ node := fun same => (List.nodup_cons.mp new.distinct).1 (same ▸ member)
    by_cases same : list = order
    · subst same
      rw [Function.update_self]
      exact fun inside => (List.mem_cons.mp inside).elim different (unlisted list)
    · rw [Function.update_of_ne same]
      exact unlisted list

-- The upper half is under the new node, and the block keeps the lower half.
structure Split (order block newBlock : Nat) (split : Nodes) : Prop where
  listed : Listed split (Function.update chains order (newBlock :: chains order))
  lower : split.blockStart block = nodes.blockStart block
  upper : split.blockStart newBlock = nodes.blockStart block ^^^ intBit (order + 12)
  others : ∀ node, node ≠ block → node ≠ newBlock → split.blockStart node = nodes.blockStart node

theorem split_block_split (order block newBlock : Nat) (rest : List Nat) (listed : Listed nodes chains)
    (new : Fresh (newBlock :: block :: rest) chains) (small : order ≤ allocMaxOrder) (aligned : Aligned (order, nodes.blockStart block)) :
    Split nodes chains order block newBlock (splitBlock order block newBlock nodes) := by
  have apart : newBlock ≠ block := fun same => (List.nodup_cons.mp new.distinct).1 (same ▸ List.mem_cons_self)
  have start := align_block_of_aligned (nodes.blockStart block) order small aligned
  refine ⟨?_, ?_, ?_, fun node notBlock notNew => ?_⟩
  · exact link_listed _ chains order newBlock listed (new.nonzero newBlock List.mem_cons_self) (new.unlisted newBlock List.mem_cons_self)
  · dsimp only [splitBlock, Nodes.link, Nodes.setStart]
    rw [Function.update_self, Function.update_of_ne apart.symm, start]
  · dsimp only [splitBlock, Nodes.link, Nodes.setStart]
    rw [Function.update_of_ne apart, Function.update_self, start]
  · dsimp only [splitBlock, Nodes.link, Nodes.setStart]
    rw [Function.update_of_ne notBlock, Function.update_of_ne notNew]

-- What the rest of the decomposition adds comes in front of the new node.
theorem split_decomposes (endOrder order block newBlock : Nat) (rest : List Nat) (split after : Nodes) (chainsAfter : Nat → List Nat)
    (new : Fresh (newBlock :: block :: rest) chains) (below : endOrder ≤ order) (one : Split nodes chains order block newBlock split)
    (turned : decomposeBlock endOrder (order + 1) block (newBlock :: rest) nodes = decomposeBlock endOrder order block rest split)
    (more : Decomposes split (Function.update chains order (newBlock :: chains order)) endOrder order block rest after chainsAfter) :
    Decomposes nodes chains endOrder (order + 1) block (newBlock :: rest) after chainsAfter where
  done := turned.trans more.done
  adds := by
    refine ⟨more.adds.listed, fun other => ?_, fun other node member => ?_⟩
    · obtain ⟨front, chain, starts⟩ := more.adds.added other
      rw [one.lower] at starts
      rw [parts_succ _ order endOrder below, starts_at_append, starts_at_single, ← starts]
      by_cases same : order = other
      · subst same
        rw [Function.update_self] at chain
        refine ⟨front ++ [newBlock], by rw [chain, List.append_assoc]; rfl, ?_⟩
        rw [List.map_append, List.map_singleton, more.frame newBlock (List.nodup_cons.mp new.distinct).1, one.upper, if_pos rfl]
      · rw [Function.update_of_ne (Ne.symm same)] at chain
        exact ⟨front, chain, by rw [if_neg same, List.append_nil]⟩
    · have listed : node ∈ Function.update chains order (newBlock :: chains order) other := by
        by_cases same : other = order
        · subst same
          rw [Function.update_self]
          exact List.mem_cons_of_mem newBlock member
        · rwa [Function.update_of_ne same]
      have apart : ∀ added ∈ newBlock :: block :: rest, node ≠ added := fun added inside same =>
        new.unlisted added inside other (same ▸ member)
      rw [more.adds.kept other node listed]
      exact one.others node (apart block (List.mem_cons_of_mem _ List.mem_cons_self)) (apart newBlock List.mem_cons_self)
  frame := by
    intro node notAdded
    obtain ⟨notBlock, notFresh⟩ := List.ne_and_not_mem_of_not_mem_cons notAdded
    obtain ⟨notNew, notRest⟩ := List.ne_and_not_mem_of_not_mem_cons notFresh
    rw [more.frame node (List.not_mem_cons_of_ne_of_not_mem notBlock notRest)]
    exact one.others node notBlock notNew

-- The induction is on the order of what is left of the block.
theorem decompose_block_adds (endOrder order block : Nat) (fresh : List Nat) (listed : Listed nodes chains)
    (new : Fresh (block :: fresh) chains) (small : order ≤ allocMaxOrder) (below : endOrder ≤ order)
    (aligned : Aligned (order, nodes.blockStart block)) (enough : order - endOrder ≤ fresh.length) :
    ∃ after chainsAfter, Decomposes nodes chains endOrder order block fresh after chainsAfter := by
  induction order generalizing nodes chains fresh with
  | zero =>
      obtain rfl := Nat.le_zero.mp below
      exact ⟨_, _, decompose_block_last nodes chains 0 block fresh listed new⟩
  | succ order ih =>
      rcases Nat.eq_or_lt_of_le below with rfl | below
      · exact ⟨_, _, decompose_block_last nodes chains (order + 1) block fresh listed new⟩
      · have lower := Nat.le_of_lt_succ below
        cases fresh with
        | nil => exact absurd enough (by rw [List.length_nil]; omega)
        | cons newBlock rest =>
            rw [List.length_cons] at enough
            have swapped := fresh_swap chains block newBlock rest new
            have one := split_block_split nodes chains order block newBlock rest listed swapped (by omega) (aligned_below order _ aligned)
            have alignedLower : Aligned (order, (splitBlock order block newBlock nodes).blockStart block) :=
              one.lower.symm ▸ aligned_below order _ aligned
            obtain ⟨after, chainsAfter, more⟩ := ih _ _ rest one.listed (fresh_rest chains order newBlock _ swapped) (by omega) lower
              alignedLower (by omega)
            refine ⟨after, chainsAfter, split_decomposes nodes chains endOrder order block newBlock rest _ _ _ swapped lower one ?_ more⟩
            rw [decomposeBlock, if_neg (by omega), if_neg (by omega)]
            rfl

end Decompose

-- What decompose_block leaves on the lists, for the nodes that kmalloc gives it.
def DecomposedFully (nodes : Nodes) (chains : Nat → List Nat) (block : Nat) (fresh : List Nat) (startOrder endOrder : Nat) : Prop :=
  ∃ after chainsAfter blocks, decomposeBlock endOrder startOrder block fresh nodes = some after ∧
    Adds nodes after chains chainsAfter blocks ∧ Partitions (nodes.blockStart block) startOrder endOrder blocks

theorem decompose_block_partitions (nodes : Nodes) (chains : Nat → List Nat) (block : Nat) (fresh : List Nat) (startOrder endOrder : Nat)
    (listed : Listed nodes chains) (new : Fresh (block :: fresh) chains) (enough : startOrder - endOrder ≤ fresh.length)
    (small : startOrder ≤ allocMaxOrder) (below : endOrder ≤ startOrder) (aligned : Aligned (startOrder, nodes.blockStart block)) :
    DecomposedFully nodes chains block fresh startOrder endOrder := by
  obtain ⟨after, chainsAfter, decomposed⟩ :=
    decompose_block_adds nodes chains endOrder startOrder block fresh listed new small below aligned enough
  exact ⟨after, chainsAfter, _, decomposed.done, decomposed.adds,
    parts_partition (nodes.blockStart block) startOrder endOrder small below aligned⟩

-- One block on the list of order 1, and a block of order 3 to be decomposed.
def oneListed : Nodes where
  blockStart := fun node => if node = 1 then 0x2000 else 0x8000
  next := fun _ => 0
  freeLists := fun order => if order = 1 then 1 else 0

theorem eight_pages_decomposed : DecomposedFully oneListed (fun order => if order = 1 then [1] else []) 2 [3, 4, 5] 3 0 := by
  refine decompose_block_partitions oneListed _ 2 [3, 4, 5] 3 0 (fun order => ?_) ⟨by decide, by decide, ?_⟩ (by decide) (by decide)
    (by decide) (by rw [Aligned]; decide)
  · rw [oneListed]
    dsimp only
    split
    · exact ⟨rfl, by decide, rfl⟩
    · rfl
  · intro node member order listed
    split at listed
    · rw [List.mem_singleton.mp listed] at member
      exact absurd member (by decide)
    · cases listed

end Kraftwerk.Pmem
